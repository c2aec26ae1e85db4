import WordHart.Snapshot.Basic
import WordHart.Text.Utf8

/-!
Codecs are put together from a few primitives, so the layout of a snapshot is
read off its definition: fields in a fixed order, numbers little-endian at full
width, texts and word lists behind a 64-bit count. Reading looks at the fields in
order and stops at the first fault; bytes past the end of a snapshot are left
over.
-/

namespace WordHart

inductive EncodingFault where
  /-- The input ends inside a number, a switch or a count. -/
  | endOfInput
  /-- A text is announced that is longer than the input. -/
  | textTooLong
  | notSwitch (byte : Nat)
  | notText (fault : Utf8.Fault)
  deriving DecidableEq

def EncodingFault.text : EncodingFault → String
  | endOfInput => "snapshot encoding error: io error: unexpected end of file"
  | textTooLong => "snapshot encoding error: io error: "
  | notSwitch byte =>
      "snapshot encoding error: invalid u8 while decoding bool, expected 0 or 1, found " ++
        Numeral.decimal byte
  | notText fault => "snapshot encoding error: string is not valid utf8: " ++ fault.text

/-- How the values of a type are written as bytes and read back. -/
structure Codec (α : Type) where
  encode : α → List UInt8
  decode : List UInt8 → Except EncodingFault (α × List UInt8)

namespace Codec

/-- The first `count` bytes and the rest, if there are that many. -/
def split? : (count : Nat) → List UInt8 → Option (List UInt8 × List UInt8)
  | 0, data => some ([], data)
  | _ + 1, [] => none
  | count + 1, byte :: data => (split? count data).map fun (front, rest) => (byte :: front, rest)

theorem split?_append (front rest : List UInt8) :
    split? front.length (front ++ rest) = some (front, rest) := by
  induction front with
  | nil => rfl
  | cons byte front inductionHypothesis => simp [split?, inductionHypothesis]

theorem split?_eq_some {count : Nat} {data front rest : List UInt8}
    (found : split? count data = some (front, rest)) :
    data = front ++ rest ∧ front.length = count := by
  induction count generalizing data front with
  | zero =>
      simp only [split?, Option.some.injEq, Prod.mk.injEq] at found
      simp [← found.1, found.2]
  | succ count inductionHypothesis =>
      cases data with
      | nil => simp [split?] at found
      | cons byte data =>
          simp only [split?, Option.map_eq_some_iff, Prod.mk.injEq, Prod.exists] at found
          obtain ⟨shorter, remaining, split, rfl, rfl⟩ := found
          obtain ⟨rfl, length⟩ := inductionHypothesis split
          simp [length]

def number (count : Nat) : Codec (BitVec (8 * count)) where
  encode value := LittleEndian.bytes count value.toNat
  decode data :=
    match split? count data with
    | some (front, rest) => .ok (BitVec.ofNat _ (LittleEndian.value front), rest)
    | none => .error .endOfInput

def word : Codec Word := number 4

def long : Codec (BitVec 64) := number 8

def switch : Codec Bool where
  encode value := [if value then 1 else 0]
  decode
    | [] => .error .endOfInput
    | byte :: rest =>
        if byte = 0 then .ok (false, rest)
        else if byte = 1 then .ok (true, rest)
        else .error (.notSwitch byte.toNat)

/-- A text, behind the number of its bytes. -/
def text : Codec String where
  encode value :=
    let data := Utf8.encode value
    long.encode (BitVec.ofNat 64 data.length) ++ data
  decode data := do
    let (count, rest) ← long.decode data
    match split? count.toNat rest with
    | none => .error .textTooLong
    | some (front, rest) =>
        match Utf8.decode front with
        | .ok value => .ok (value, rest)
        | .error fault => .error (.notText fault)

def pair {α β : Type} (first : Codec α) (second : Codec β) : Codec (α × β) where
  encode value := first.encode value.1 ++ second.encode value.2
  decode data := do
    let (left, rest) ← first.decode data
    let (right, rest) ← second.decode rest
    return ((left, right), rest)

/-- The values of another type that stands in one-to-one correspondence. -/
def imap {α β : Type} (codec : Codec α) (build : α → β) (takeApart : β → α) : Codec β where
  encode value := codec.encode (takeApart value)
  decode data := do
    let (value, rest) ← codec.decode data
    return (build value, rest)

def vector {α : Type} (item : Codec α) : (count : Nat) → Codec (Vector α count)
  | 0 => ⟨fun _ => [], fun data => .ok (#v[], data)⟩
  | count + 1 =>
      ((vector item count).pair item).imap (fun (front, last) => front.push last)
        (fun items => (items.pop, items.back))

def decodeMany {α : Type} (item : Codec α) :
    (count : Nat) → List UInt8 → Except EncodingFault (List α × List UInt8)
  | 0, data => .ok ([], data)
  | count + 1, data => do
      let (first, rest) ← item.decode data
      let (others, rest) ← decodeMany item count rest
      return (first :: others, rest)

/-- A list, behind the number of its items. -/
def list {α : Type} (item : Codec α) : Codec (List α) where
  encode items := long.encode (BitVec.ofNat 64 items.length) ++ items.flatMap item.encode
  decode data := do
    let (count, rest) ← long.decode data
    decodeMany item count.toNat rest

end Codec

def Config.codec : Codec Config :=
  (Codec.long.pair (Codec.switch.pair Codec.switch)).imap
    (fun (memoryWords, hardwireX0, jalrReadsRs1First) =>
      ⟨memoryWords, ⟨hardwireX0, jalrReadsRs1First⟩⟩)
    (fun config => (config.memoryWords, config.mode.hardwireX0, config.mode.jalrReadsRs1First))

def RegisterFile.codec : Codec RegisterFile := (Codec.word.vector 32).imap .mk RegisterFile.cells

def Counters.codec : Codec Counters :=
  (Codec.long.pair (Codec.long.pair Codec.long)).imap
    (fun (cycles, executed, ignored) => ⟨cycles, executed, ignored⟩)
    (fun counters => (counters.cycles, counters.executed, counters.ignored))

namespace Snapshot

def codec : Codec Snapshot :=
  (Codec.text.pair <| Config.codec.pair <| Codec.word.pair <| RegisterFile.codec.pair <|
      Counters.codec.pair <| Codec.text.pair Codec.word.list).imap
    (fun (version, config, pc, registers, counters, digest, words) =>
      ⟨version, config, pc, registers, counters, digest, words⟩)
    (fun snapshot =>
      (snapshot.version, snapshot.config, snapshot.pc, snapshot.registers, snapshot.counters,
        snapshot.digest, snapshot.words))

def toBytes (snapshot : Snapshot) : List UInt8 := codec.encode snapshot

/-- The snapshot that a byte string begins with. -/
def ofBytes (data : List UInt8) : Except EncodingFault Snapshot := do
  let (snapshot, _) ← codec.decode data
  return snapshot

end Snapshot

end WordHart
