import Mathlib.Data.List.Basic
import Mathlib.Algebra.Group.Nat.Defs

/-! The frames of the handshake: eight bytes of length, a byte for the type unless the peer is an old one, the
text. -/
namespace Mooncake.Engine.Framing
open List

/-- A type that was read may be none of the enumerators. -/
inductive HandShakeRequestType where
  | connection
  | metadata
  | notify
  | oldProtocol
  | unnamed (value : Int)
deriving DecidableEq

namespace HandShakeRequestType

def byte : HandShakeRequestType → UInt8
  | .connection => 0
  | .metadata => 1
  | .notify => 2
  | .oldProtocol => 0xff
  | .unnamed value => UInt8.ofInt value

/-- `static_cast<HandShakeRequestType>` of a `char`. -/
def ofChar : Int → HandShakeRequestType
  | 0 => .connection
  | 1 => .metadata
  | 2 => .notify
  | value => .unnamed value

end HandShakeRequestType

/-- The little-endian bytes of an integer of `k` bytes. -/
def toBytes : Nat → Nat → List UInt8
  | 0, _ => []
  | k + 1, n => UInt8.ofNat n :: toBytes k (n / 256)

def ofBytes : List UInt8 → Nat
  | [] => 0
  | b :: bytes => b.toNat + 256 * ofBytes bytes

variable (moves : Nat → Nat)

/-- What the system call with this number moves of `n` bytes: some of them, if there are any. -/
def part (turn n : Nat) : Nat := min n (moves turn + 1)

def writeFully (moves : Nat → Nat) (turn : Nat) (sent data : List UInt8) : Nat × List UInt8 :=
  if data = [] then (turn, sent)
  else
    let rc := part moves turn data.length
    writeFully moves (turn + 1) (sent ++ data.take rc) (data.drop rc)
termination_by data.length
decreasing_by
  have some := List.length_pos_iff.mpr ‹_›
  simp only [List.length_drop, part]
  omega

/-- At the end of the stream a call moves nothing. -/
def readFully (moves : Nat → Nat) (turn : Nat) (buffer stream : List UInt8) (nbytes : Nat) :
    Nat × List UInt8 × List UInt8 :=
  let rc := part moves turn (min nbytes stream.length)
  if rc = 0 then (turn, buffer, stream)
  else readFully moves (turn + 1) (buffer ++ stream.take rc) (stream.drop rc) (nbytes - rc)
termination_by nbytes
decreasing_by
  have inside : part moves turn (min nbytes stream.length) ≤ min nbytes stream.length := Nat.min_le_left _ _
  omega

def writeString (type : HandShakeRequestType) (str : List UInt8) : List UInt8 :=
  let length := str.length + if type = .oldProtocol then 0 else 1
  let (turn, sent) := writeFully moves 0 [] (toBytes 8 length)
  let (turn, sent) := if type = .oldProtocol then (turn, sent) else writeFully moves turn sent [type.byte]
  (writeFully moves turn sent str).2

def kMaxLength : Nat := 2 ^ 20

/-- The end of `readString`; `none` is an access outside of the buffer. -/
def typed : List UInt8 → Option (HandShakeRequestType × List UInt8)
  | [] => none
  | first :: rest =>
    if first.toInt8.toInt ≤ 2 then some (.ofChar first.toInt8.toInt, rest) else some (.oldProtocol, first :: rest)

def readString (stream : List UInt8) : Option (HandShakeRequestType × List UInt8) :=
  let (turn, field, stream) := readFully moves 0 [] stream 8
  let length := ofBytes field
  if field.length ≠ 8 ∨ kMaxLength < length then some (.connection, [])
  else
    let buffer := (readFully moves turn [] stream length).2.1
    if buffer.length ≠ length then some (.connection, []) else typed buffer

/-- What a peer sends: with the old protocol a text that begins with a brace. -/
def Sendable : HandShakeRequestType → List UInt8 → Prop
  | .connection, str | .metadata, str | .notify, str => str.length < kMaxLength
  | .oldProtocol, str => str.length ≤ kMaxLength ∧ str.head? = some 0x7b
  | .unnamed _, _ => False

theorem length_toBytes (k n : Nat) : (toBytes k n).length = k := by
  induction k generalizing n with
  | zero => rfl
  | succ k ih => rw [toBytes, length_cons, ih]

theorem ofBytes_toBytes {k n : Nat} (fits : n < 256 ^ k) : ofBytes (toBytes k n) = n := by
  induction k generalizing n with
  | zero => exact (Nat.lt_one_iff.mp fits).symm
  | succ k ih =>
    have rest := ih (Nat.div_lt_of_lt_mul (by rwa [Nat.pow_succ, Nat.mul_comm] at fits))
    rw [toBytes, ofBytes, rest, UInt8.toNat_ofNat']
    exact Nat.mod_add_div n 256

variable {moves : Nat → Nat} {turn nbytes : Nat}

theorem writeFully_sent (sent data : List UInt8) : (writeFully moves turn sent data).2 = sent ++ data := by
  fun_induction writeFully moves turn sent data with
  | case1 => simp
  | case2 turn sent data some rc ih => rw [ih, append_assoc, take_append_drop]

theorem readFully_read (buffer stream : List UInt8) :
    (readFully moves turn buffer stream nbytes).2 = (buffer ++ stream.take nbytes, stream.drop nbytes) := by
  fun_induction readFully moves turn buffer stream nbytes with
  | case1 turn buffer stream nbytes rc none =>
    simp only [rc, part] at none
    rcases Nat.eq_zero_or_pos nbytes with rfl | more
    · simp
    · have ended : stream = [] := length_eq_zero_iff.mp (by omega)
      simp [ended]
  | case2 turn buffer stream nbytes rc some ih =>
    have inside : nbytes = rc + (nbytes - rc) := by simp only [rc, part]; omega
    rw [ih, append_assoc, drop_drop, ← inside]
    nth_rewrite 3 [inside]
    rw [take_add]

theorem isSome_typed {buffer : List UInt8} (some : buffer ≠ []) : (typed buffer).isSome = true := by
  obtain ⟨first, rest, rfl⟩ := exists_cons_of_ne_nil some
  rw [typed]
  split <;> rfl

/-- What the bytes say, however they are moved. -/
theorem readString_eq (stream : List UInt8) :
    readString moves stream =
      let length := ofBytes (stream.take 8)
      let buffer := (stream.drop 8).take length
      if stream.length < 8 ∨ kMaxLength < length ∨ buffer.length ≠ length then some (.connection, [])
        else typed buffer := by
  have eight : (stream.take 8).length ≠ 8 ↔ stream.length < 8 := by rw [length_take]; omega
  simp only [readString, readFully_read, nil_append, eight]
  by_cases refused : stream.length < 8 ∨ kMaxLength < ofBytes (stream.take 8)
  · rw [if_pos refused, if_pos (or_assoc.mp (.inl refused))]
  · rw [if_neg refused]
    simp only [← or_assoc, refused, false_or]

/-- The bytes of a frame. -/
theorem writeString_eq (type : HandShakeRequestType) (str : List UInt8) :
    writeString moves type str =
      if type = .oldProtocol then toBytes 8 str.length ++ str else toBytes 8 (str.length + 1) ++ type.byte :: str := by
  unfold writeString
  split <;> simp [writeFully_sent]

theorem readString_frame (body : List UInt8) (fits : body.length ≤ kMaxLength) :
    readString moves (toBytes 8 body.length ++ body) = typed body := by
  have field : (toBytes 8 body.length ++ body).take 8 = toBytes 8 body.length := take_left' (length_toBytes _ _)
  have rest : (toBytes 8 body.length ++ body).drop 8 = body := drop_left' (length_toBytes _ _)
  have length : ofBytes (toBytes 8 body.length) = body.length := ofBytes_toBytes (Nat.lt_of_le_of_lt fits (by decide))
  rw [readString_eq]
  simp only [field, rest, length, take_length, length_append, length_toBytes]
  rw [if_neg (by omega)]

/-- Frames are read as they were written, and of any bytes whatsoever the reader accesses its buffer out of
bounds exactly if they announce a frame of length zero. -/
theorem framing_exact_iff (moves : Nat → Nat) :
    (∀ moves' type str, Sendable type str → readString moves (writeString moves' type str) = some (type, str)) ∧
      ∀ stream, (readString moves stream).isSome = true ↔ ¬ (8 ≤ stream.length ∧ ofBytes (stream.take 8) = 0) := by
  constructor
  · intro moves' type str sendable
    rw [writeString_eq]
    cases type with
    | connection | metadata | notify => exact readString_frame (_ :: str) sendable
    | oldProtocol =>
      obtain ⟨fits, brace⟩ := sendable
      obtain ⟨rest, rfl⟩ := head?_eq_some_iff.mp brace
      exact readString_frame _ fits
    | unnamed value => exact sendable.elim
  · intro stream
    rw [readString_eq]
    constructor
    · rintro safe ⟨long, zero⟩
      simp [zero, Nat.not_lt.mpr long, typed] at safe
    · intro announced
      simp only
      split
      · rfl
      · next accepted =>
        simp only [not_or, Nat.not_lt, ne_eq, Decidable.not_not] at accepted
        obtain ⟨long, -, whole⟩ := accepted
        refine isSome_typed fun empty => announced ⟨long, ?_⟩
        rw [← whole, empty, length_nil]

theorem empty_frame_out_of_bounds : readString (fun _ => 8) (List.replicate 8 0) = none := by
  rw [readString_eq]
  rfl

end Mooncake.Engine.Framing
