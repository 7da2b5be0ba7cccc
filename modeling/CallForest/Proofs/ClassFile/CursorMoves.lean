import CallForest.ClassFile.Cursor

/-!
# Where requests leave a cursor

Everything that reads class files asks a cursor for the next bytes or for a number in them, sends it
to another position, or splits off a part. The bytes stay the same throughout, so that a cursor is
told by its position. A request that is granted takes the next bytes and stops right after them.

A request that cannot be granted leaves the cursor where it is, with one exception. A word of eight
bytes is read in two halves, and if only the second half is missing, the first one is lost: the
cursor stands four bytes further than before.

## Main definitions

* `Cursor.ofPosition` — the place at a position in a sequence of bytes;
* `CursorRequest` — what a cursor can be asked for;
* `CursorRequest.perform` — the decoder of a request;
* `CursorRequest.width?`, `CursorRequest.answer` — how many bytes are read, and what they mean;
* `Cursor.moved` — the cursor after a request, granted or not.

## Main results

* `CursorRequest.run_perform`, `CursorRequest.run_perform_short` — a request that is granted, and
  one that is not;
* `Cursor.exists_moved_eq` — every request keeps the bytes;
* `requests_exact` — any request after any others.
-/

namespace CallForest.ClassFile

open Decoder

/-! ### Positions -/

namespace Cursor

/-- The place after the given number of bytes. -/
def ofPosition (data : List UInt8) (position : Nat) : Cursor where
  before := (data.take position).reverse
  after := data.drop position

variable {data : List UInt8} {p : Nat}

theorem ofPosition_zero (data : List UInt8) : ofPosition data 0 = .start data :=
  rfl

@[simp]
theorem bytes_ofPosition (data : List UInt8) (p : Nat) : (ofPosition data p).bytes = data := by
  simp [ofPosition, bytes]

@[simp]
theorem size_ofPosition (data : List UInt8) (p : Nat) : (ofPosition data p).size = data.length := by
  have hbytes := congrArg List.length (bytes_ofPosition data p)
  simpa [bytes, size] using hbytes

theorem position_ofPosition (hp : p ≤ data.length) : (ofPosition data p).position = p := by
  rw [position, ofPosition, List.length_reverse, List.length_take, Nat.min_eq_left hp]

/-- The bytes before a later place are those before an earlier one and those between. -/
theorem ofPosition_add (data : List UInt8) (p n : Nat) : ofPosition data (p + n) =
    ⟨((data.drop p).take n).reverse ++ (ofPosition data p).before, (data.drop p).drop n⟩ := by
  rw [ofPosition, ofPosition, List.take_add, List.reverse_append, List.drop_drop]

end Cursor

/-! ### Basic reads by position -/

section Basic

variable {data : List UInt8} {p n : Nat}

theorem run_take (hn : p + n ≤ data.length) : (take n).run (.ofPosition data p) =
    .ok ((data.drop p).take n) (.ofPosition data (p + n)) := by
  have henough : ¬ ((data.drop p).take n).length < n := by
    rw [List.length_take, List.length_drop]
    omega
  rw [Cursor.ofPosition_add]
  exact if_neg henough

/-- Taking more than is there fails, and the cursor stays where it is. -/
theorem run_take_short (hp : p ≤ data.length) (hn : data.length < p + n) :
    (take n).run (.ofPosition data p) =
      .error (.outOfBounds p n data.length) (.ofPosition data p) := by
  have hfew : ((data.drop p).take n).length < n := by
    rw [List.length_take, List.length_drop]
    omega
  have hrun : (take n).run (.ofPosition data p) = .error (.outOfBounds
      (Cursor.ofPosition data p).position n (Cursor.ofPosition data p).size) (.ofPosition data p) :=
    if_pos hfew
  rwa [Cursor.position_ofPosition hp, Cursor.size_ofPosition] at hrun

theorem run_seek (data : List UInt8) (p target : Nat) : (seek target).run (.ofPosition data p) =
    if target ≤ data.length then .ok () (.ofPosition data target)
    else .error (.outOfBounds target 0 data.length) (.ofPosition data p) := by
  simp only [EStateM.run, seek, Cursor.size_ofPosition, Cursor.bytes_ofPosition]
  by_cases htarget : target ≤ data.length
  · rw [if_neg (Nat.not_lt.mpr htarget), if_pos htarget]
    rfl
  · rw [if_pos (Nat.not_le.mp htarget), if_neg htarget]

end Basic

/-- The number that two rows of bytes stand for together. -/
theorem Word.decode_append (high low : List UInt8) :
    decode (high ++ low) = decode high * count low.length + decode low := by
  rw [decode, List.foldl_append, foldl_decode]
  rfl

/-! ### Requests -/

/-- A request to a cursor. -/
inductive CursorRequest where
  /-- To go to a position. -/
  | seek (target : Nat)
  | skip (n : Nat)
  | take (n : Nat)
  /-- The next bytes as a cursor of their own. -/
  | part (n : Nat)
  | u8
  | u16
  | u32
  | i32
  | u64
deriving DecidableEq, Repr

/-- What a request gives. -/
inductive CursorAnswer where
  | done
  | bytes (bytes : List UInt8)
  | part (cursor : Cursor)
  | natural (n : Nat)
  | integer (n : Int)
deriving DecidableEq, Repr

/-- The next bytes as a cursor of their own. -/
def Decoder.part (n : Nat) : Decoder Cursor := do
  return .start (← Decoder.take n)

namespace CursorRequest

/-- The decoder of a request. -/
def perform : CursorRequest → Decoder CursorAnswer
  | .seek target => do
    Decoder.seek target
    return .done
  | .skip n => do
    Decoder.skip n
    return .done
  | .take n => do return .bytes (← Decoder.take n)
  | .part n => do return .part (← Decoder.part n)
  | .u8 => do return .natural (← Decoder.u8)
  | .u16 => do return .natural (← Decoder.u16)
  | .u32 => do return .natural (← Decoder.u32)
  | .i32 => do return .integer (← Decoder.i32)
  | .u64 => do return .natural (← Decoder.u64)

/-- The number of bytes that are read, if the request is to read. -/
def width? : CursorRequest → Option Nat
  | .seek _ => none
  | .skip n | .take n | .part n => some n
  | .u8 => some 1
  | .u16 => some 2
  | .u32 | .i32 => some 4
  | .u64 => some 8

/-- What the bytes that are read mean. -/
def answer : CursorRequest → List UInt8 → CursorAnswer
  | .seek _, _ | .skip _, _ => .done
  | .take _, bytes => .bytes bytes
  | .part _, bytes => .part (.start bytes)
  | .u8, bytes | .u16, bytes | .u32, bytes | .u64, bytes => .natural (Word.decode bytes)
  | .i32, bytes => .integer (Word.signed 32 (Word.decode bytes))

variable {r : CursorRequest} {data : List UInt8} {p n : Nat}

/-- All bytes are read at once, unless they are eight. -/
theorem perform_eq_take (hr : r.width? = some n) (hwide : r ≠ .u64) :
    r.perform = do return r.answer (← Decoder.take n) := by
  cases r with
  | seek target => cases hr
  | u64 => exact absurd rfl hwide
  | _ =>
    cases hr
    simp [perform, answer, Decoder.skip, Decoder.part, Decoder.u8, Decoder.u16, Decoder.u32,
      Decoder.i32, Decoder.word]

/-- The halves of a word of eight bytes are read one after the other. -/
theorem perform_u64 : perform .u64 = do
    let high ← Decoder.take 4
    let low ← Decoder.take 4
    return .natural (Word.decode high * UInt32.size + Word.decode low) := by
  simp [perform, Decoder.u64, Decoder.u32, Decoder.word]

/-- A request that is granted takes the bytes it needs and stops after them. -/
theorem run_perform (hr : r.width? = some n) (hn : p + n ≤ data.length) :
    r.perform.run (.ofPosition data p) =
      .ok (r.answer ((data.drop p).take n)) (.ofPosition data (p + n)) := by
  by_cases hwide : r = .u64
  · subst hwide
    cases hr
    have hfirst : Decoder.take 4 (.ofPosition data p) = _ := run_take (p := p) (n := 4) (by omega)
    have hsecond : Decoder.take 4 (.ofPosition data (p + 4)) = _ := run_take (n := 4) (by omega)
    have hlow : ((data.drop (p + 4)).take 4).length = 4 := by
      rw [List.length_take, List.length_drop]
      omega
    have hsplit : (data.drop p).take 8 = (data.drop p).take 4 ++ (data.drop (p + 4)).take 4 := by
      rw [← List.drop_drop, ← List.take_add]
    rw [perform_u64]
    simp only [EStateM.run, Bind.bind, EStateM.bind, hfirst, hsecond]
    rw [hsplit, answer, Word.decode_append, hlow]
    rfl
  · have htake : Decoder.take n (.ofPosition data p) = _ := run_take hn
    rw [perform_eq_take hr hwide]
    simp only [EStateM.run, Bind.bind, EStateM.bind, htake]
    rfl

/-- A request that is not granted moves the cursor only if it is for eight bytes and four of them
are there. -/
theorem run_perform_short (hr : r.width? = some n) (hp : p ≤ data.length)
    (hn : data.length < p + n) : ∃ fault, r.perform.run (.ofPosition data p) =
      .error fault (.ofPosition data (if r = .u64 ∧ p + 4 ≤ data.length then p + 4 else p)) := by
  by_cases hwide : r = .u64
  · subst hwide
    cases hr
    rw [perform_u64]
    by_cases hhalf : p + 4 ≤ data.length
    · -- The first half is there, and the second is looked for after it.
      have hfirst : Decoder.take 4 (.ofPosition data p) = _ := run_take hhalf
      have hsecond : Decoder.take 4 (.ofPosition data (p + 4)) = _ :=
        run_take_short hhalf (by omega)
      rw [if_pos ⟨rfl, hhalf⟩]
      simp only [EStateM.run, Bind.bind, EStateM.bind, hfirst, hsecond]
      exact ⟨_, rfl⟩
    · have hfirst : Decoder.take 4 (.ofPosition data p) = _ := run_take_short hp (by omega)
      rw [if_neg fun h => hhalf h.2]
      simp only [EStateM.run, Bind.bind, EStateM.bind, hfirst]
      exact ⟨_, rfl⟩
  · have htake : Decoder.take n (.ofPosition data p) = _ := run_take_short hp hn
    rw [perform_eq_take hr hwide, if_neg fun h => hwide h.1]
    simp only [EStateM.run, Bind.bind, EStateM.bind, htake]
    exact ⟨_, rfl⟩

theorem run_perform_seek (data : List UInt8) (p target : Nat) :
    (perform (.seek target)).run (.ofPosition data p) =
      if target ≤ data.length then .ok .done (.ofPosition data target)
      else .error (.outOfBounds target 0 data.length) (.ofPosition data p) := by
  have hseek : Decoder.seek target (.ofPosition data p) = _ := run_seek data p target
  simp only [EStateM.run, perform, Bind.bind, EStateM.bind, hseek]
  by_cases htarget : target ≤ data.length
  · rw [if_pos htarget, if_pos htarget]
    rfl
  · rw [if_neg htarget, if_neg htarget]

end CursorRequest

/-! ### Runs of requests -/

/-- The cursor after a request, whether it is granted or not. -/
def Cursor.moved (c : Cursor) (r : CursorRequest) : Cursor :=
  match r.perform.run c with
  | .ok _ c' | .error _ c' => c'

/-- A request changes nothing but the position, which stays within the bytes. -/
theorem Cursor.exists_moved_eq {data : List UInt8} {p : Nat} (hp : p ≤ data.length)
    (r : CursorRequest) : ∃ q ≤ data.length, (ofPosition data p).moved r = .ofPosition data q := by
  unfold moved
  cases hr : r.width? with
  | none =>
    obtain ⟨target, rfl⟩ : ∃ target, r = .seek target := by
      cases r with
      | seek target => exact ⟨target, rfl⟩
      | _ => cases hr
    rw [CursorRequest.run_perform_seek]
    by_cases htarget : target ≤ data.length
    · rw [if_pos htarget]
      exact ⟨target, htarget, rfl⟩
    · rw [if_neg htarget]
      exact ⟨p, hp, rfl⟩
  | some n =>
    by_cases hn : p + n ≤ data.length
    · rw [CursorRequest.run_perform hr hn]
      exact ⟨p + n, hn, rfl⟩
    · obtain ⟨fault, hrun⟩ := CursorRequest.run_perform_short hr hp (Nat.not_le.mp hn)
      rw [hrun]
      refine ⟨_, ?_, rfl⟩
      split <;> omega

/-- So does any run of requests, of which some may have failed. -/
theorem Cursor.exists_foldl_moved_eq {data : List UInt8} {p : Nat} (hp : p ≤ data.length)
    (requests : List CursorRequest) :
    ∃ q ≤ data.length, requests.foldl moved (ofPosition data p) = .ofPosition data q := by
  induction requests generalizing p with
  | nil => exact ⟨p, hp, rfl⟩
  | cons r requests ih =>
    obtain ⟨q, hq, hmoved⟩ := exists_moved_eq hp r
    rw [List.foldl_cons, hmoved]
    exact ih hq

/-- After any requests, granted or not, the cursor has the bytes it was given and stands within
them. A request for the next `n` bytes is granted if there are so many, with what just these bytes
mean, and leaves the cursor after them; else it fails, and leaves the cursor where it is, unless it
is for eight bytes and at least four are there, which are then passed over. -/
theorem requests_exact (data : List UInt8) (requests : List CursorRequest) :
    let c := requests.foldl Cursor.moved (.start data)
    c.bytes = data ∧ c.position ≤ data.length ∧
      (∀ target, (CursorRequest.seek target).perform.run c =
        if target ≤ data.length then .ok .done (.ofPosition data target)
        else .error (.outOfBounds target 0 data.length) c) ∧
      ∀ r n, CursorRequest.width? r = some n →
        (c.position + n ≤ data.length → r.perform.run c =
          .ok (r.answer ((data.drop c.position).take n)) (.ofPosition data (c.position + n))) ∧
        (data.length < c.position + n → ∃ fault c', r.perform.run c = .error fault c' ∧
          c'.bytes = data ∧ (c' = c ↔ ¬ (r = .u64 ∧ c.position + 4 ≤ data.length)) ∧
          (c' ≠ c → c'.position = c.position + 4)) := by
  obtain ⟨p, hp, hc⟩ := Cursor.exists_foldl_moved_eq (Nat.zero_le data.length) requests
  rw [Cursor.ofPosition_zero] at hc
  simp only [hc, Cursor.bytes_ofPosition, Cursor.position_ofPosition hp]
  refine ⟨trivial, hp, CursorRequest.run_perform_seek data p, fun r n hr =>
    ⟨CursorRequest.run_perform hr, fun hn => ?_⟩⟩
  obtain ⟨fault, hrun⟩ := CursorRequest.run_perform_short hr hp hn
  refine ⟨fault, _, hrun, Cursor.bytes_ofPosition _ _, ?_⟩
  by_cases hhalf : r = .u64 ∧ p + 4 ≤ data.length
  · have hposition := Cursor.position_ofPosition hhalf.2
    have hmoved : Cursor.ofPosition data (p + 4) ≠ .ofPosition data p := by
      intro hsame
      rw [hsame, Cursor.position_ofPosition hp] at hposition
      omega
    rw [if_pos hhalf]
    exact ⟨⟨fun hsame => absurd hsame hmoved, fun hnot => absurd hhalf hnot⟩, fun _ => hposition⟩
  · rw [if_neg hhalf]
    exact ⟨⟨fun _ => hhalf, fun _ => rfl⟩, fun hmoved => absurd rfl hmoved⟩

/-- After a short and a failed request for eight bytes, a word that ends with the bytes is read, and
one that ends beyond them is not. -/
theorem requests_exact_sevenBytes :
    let c := [CursorRequest.u16, .take 6].foldl Cursor.moved (.start [1, 2, 3, 4, 5, 6, 7])
    c.position = 2 ∧
      CursorRequest.i32.perform.run c = .ok (.integer 50595078) (.ofPosition c.bytes 6) ∧
      ∃ fault c', CursorRequest.u64.perform.run c = .error fault c' ∧ c'.position = 6 := by
  obtain ⟨hbytes, -, -, hread⟩ := requests_exact [1, 2, 3, 4, 5, 6, 7] [.u16, .take 6]
  have hgranted := (hread .i32 4 rfl).1 (by decide)
  obtain ⟨fault, c', hrun, -, hsame, hfour⟩ := (hread .u64 8 rfl).2 (by decide)
  have hmoved : c' ≠ _ := fun h => hsame.mp h ⟨rfl, by decide⟩
  exact ⟨rfl, hgranted, fault, c', hrun, hfour hmoved⟩

/-- A failed request that moves the cursor: of six bytes, the first four are lost. -/
theorem run_u64_sixBytes :
    CursorRequest.u64.perform.run (.start [0, 1, 2, 3, 4, 5]) =
      .error (.outOfBounds 4 4 6) (.ofPosition [0, 1, 2, 3, 4, 5] 4) ∧
    (Cursor.ofPosition [0, 1, 2, 3, 4, 5] 4).position ≠ (Cursor.start [0, 1, 2, 3, 4, 5]).position ∧
    CursorRequest.u16.perform.run (.ofPosition [0, 1, 2, 3, 4, 5] 4) =
      .ok (.natural 1029) (.ofPosition [0, 1, 2, 3, 4, 5] 6) :=
  ⟨rfl, by decide, rfl⟩

end CallForest.ClassFile
