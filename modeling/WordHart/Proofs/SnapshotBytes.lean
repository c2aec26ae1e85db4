import Mathlib
import WordHart.Proofs.Codec

namespace WordHart

theorem Config.codec_exact : Config.codec.Exact fun _ => True := by
  have fields := Codec.long_exact.pair (Codec.switch_exact.pair Codec.switch_exact)
  exact (fields.imap (fun _ => rfl) (fun _ => rfl)).of_iff fun _ => by simp

theorem RegisterFile.codec_exact : RegisterFile.codec.Exact fun _ => True :=
  (Codec.word_exact.vector 32).imap (fun _ => rfl) (fun _ => rfl)

theorem Counters.codec_exact : Counters.codec.Exact fun _ => True := by
  have fields := Codec.long_exact.pair (Codec.long_exact.pair Codec.long_exact)
  exact (fields.imap (fun _ => rfl) (fun _ => rfl)).of_iff fun _ => by simp

namespace Snapshot

/-- The lengths of both texts and of the word list fit into a 64-bit count. -/
structure Sized (snapshot : Snapshot) : Prop where
  version : (Utf8.encode snapshot.version).length < 2 ^ 64
  digest : (Utf8.encode snapshot.digest).length < 2 ^ 64
  words : snapshot.words.length < 2 ^ 64

theorem codec_exact : codec.Exact Sized := by
  have fields := Codec.text_exact.pair <| Config.codec_exact.pair <| Codec.word_exact.pair <|
    RegisterFile.codec_exact.pair <| Counters.codec_exact.pair <|
    Codec.text_exact.pair Codec.word_exact.list
  refine (fields.imap (fun _ => rfl) (fun _ => rfl)).of_iff fun snapshot => ?_
  constructor
  · intro sized
    exact ⟨sized.version, trivial, trivial, trivial, trivial, sized.digest, sized.words⟩
  · intro fields
    rcases fields with ⟨version, -, -, -, -, digest, words⟩
    exact ⟨version, digest, words⟩

theorem ofBytes_eq_ok_iff {data : List UInt8} {snapshot : Snapshot} :
    ofBytes data = .ok snapshot ↔ snapshot.Sized ∧ snapshot.toBytes <+: data := by
  simp only [ofBytes, Codec.bind_eq_ok_iff, pure, Except.pure, Except.ok.injEq, Prod.exists,
    codec_exact _ _ _]
  constructor
  · intro read
    rcases read with ⟨_, rest, ⟨sized, rfl⟩, rfl⟩
    exact ⟨sized, rest, rfl⟩
  · intro written
    rcases written with ⟨sized, rest, rfl⟩
    exact ⟨snapshot, rest, ⟨sized, rfl⟩, rfl⟩

theorem ofBytes_toBytes {snapshot : Snapshot} (sized : snapshot.Sized) :
    ofBytes snapshot.toBytes = .ok snapshot :=
  ofBytes_eq_ok_iff.mpr ⟨sized, List.prefix_rfl⟩

/-- A snapshot whose bytes begin those of another is that other one. -/
theorem eq_of_toBytes_begins {left right : Snapshot} (leftSized : left.Sized)
    (rightSized : right.Sized) (begins : left.toBytes <+: right.toBytes) : left = right := by
  have read : ofBytes right.toBytes = .ok left := ofBytes_eq_ok_iff.mpr ⟨leftSized, begins⟩
  rw [ofBytes_toBytes rightSized] at read
  exact (Except.ok.inj read).symm

def switchByte (value : Bool) : UInt8 := if value then 1 else 0

/-- The bytes of a text behind the number of them. -/
def countedText (text : String) : List UInt8 :=
  LittleEndian.bytes 8 (Utf8.encode text).length ++ Utf8.encode text

/-- The fields of a snapshot in the order in which they are written. -/
def layout (snapshot : Snapshot) : List UInt8 :=
  countedText snapshot.version ++ LittleEndian.bytes 8 snapshot.config.memoryWords.toNat ++
    [switchByte snapshot.config.mode.hardwireX0, switchByte snapshot.config.mode.jalrReadsRs1First] ++
    LittleEndian.ofWord snapshot.pc ++ LittleEndian.ofWords snapshot.registers.toList ++
    LittleEndian.bytes 8 snapshot.counters.cycles.toNat ++
    LittleEndian.bytes 8 snapshot.counters.executed.toNat ++
    LittleEndian.bytes 8 snapshot.counters.ignored.toNat ++ countedText snapshot.digest ++
    LittleEndian.bytes 8 snapshot.words.length ++ LittleEndian.ofWords snapshot.words

theorem encode_vector {α : Type} (item : Codec α) {count : Nat} (items : Vector α count) :
    (item.vector count).encode items = items.toList.flatMap item.encode := by
  induction count with
  | zero =>
      have empty : items = #v[] := Vector.eq_empty
      subst empty
      rfl
  | succ count inductionHypothesis =>
      have parts : items.toList = items.pop.toList ++ [items.back] := by
        rw [← Vector.toList_push, Vector.push_pop_back]
      rw [parts, List.flatMap_append, ← inductionHypothesis, List.flatMap_singleton]
      rfl

theorem encode_text {text : String} (fits : (Utf8.encode text).length < 2 ^ 64) :
    Codec.text.encode text = countedText text := by
  simp only [Codec.text, Codec.long, Codec.number, countedText, Codec.toNat_ofNat_of_lt fits]

theorem toBytes_eq_layout {snapshot : Snapshot} (sized : snapshot.Sized) :
    snapshot.toBytes = snapshot.layout := by
  have version := encode_text sized.version
  have digest := encode_text sized.digest
  have registers : RegisterFile.codec.encode snapshot.registers =
      LittleEndian.ofWords snapshot.registers.toList :=
    encode_vector Codec.word snapshot.registers.cells
  have words : Codec.word.list.encode snapshot.words =
      LittleEndian.bytes 8 snapshot.words.length ++ LittleEndian.ofWords snapshot.words := by
    simp only [Codec.list, Codec.long, Codec.number, Codec.toNat_ofNat_of_lt sized.words]
    rfl
  simp only [toBytes, codec, Codec.imap, Codec.pair, version, registers, digest, words, layout,
    List.append_assoc]
  rfl

/-- Reading gives a snapshot back precisely from its bytes and whatever follows them. -/
theorem ofBytes_reads_exactly_toBytes :
    (∀ snapshot : Snapshot, snapshot.Sized → snapshot.toBytes = snapshot.layout ∧
      ofBytes snapshot.toBytes = .ok snapshot ∧
      ∀ data, ofBytes data = .ok snapshot ↔ ∃ tail, data = snapshot.toBytes ++ tail) ∧
    (∀ data snapshot, ofBytes data = .ok snapshot →
      snapshot.Sized ∧ ∃ tail, data = snapshot.toBytes ++ tail) ∧
    ∀ left right : Snapshot, left.Sized → right.Sized →
      (left.toBytes = right.toBytes → left = right) ∧
      (left.toBytes <+: right.toBytes → left.toBytes = right.toBytes) := by
  have accepted (data : List UInt8) (snapshot : Snapshot) :
      ofBytes data = .ok snapshot ↔
        snapshot.Sized ∧ ∃ tail, data = snapshot.toBytes ++ tail := by
    rw [ofBytes_eq_ok_iff]
    simp only [List.IsPrefix, eq_comm]
  refine ⟨?_, ?_, ?_⟩
  · intro snapshot sized
    refine ⟨toBytes_eq_layout sized, ofBytes_toBytes sized, fun data => ?_⟩
    rw [accepted]
    exact and_iff_right sized
  · intro data snapshot read
    exact (accepted data snapshot).mp read
  · intro left right leftSized rightSized
    constructor
    · intro same
      exact eq_of_toBytes_begins leftSized rightSized ⟨[], by rw [same, List.append_nil]⟩
    · intro begins
      rw [eq_of_toBytes_begins leftSized rightSized begins]

theorem ofBytes_reads_exactly_toBytes_accented :
    ofBytes (toBytes ⟨"1.1", {}, 1, .zero, {}, "né", [0x13, 0]⟩ ++ [7]) =
      .ok ⟨"1.1", {}, 1, .zero, {}, "né", [0x13, 0]⟩ := by
  have sized : Sized ⟨"1.1", {}, 1, .zero, {}, "né", [0x13, 0]⟩ :=
    ⟨by decide, by decide, by decide⟩
  exact ((ofBytes_reads_exactly_toBytes.1 _ sized).2.2 _).mpr ⟨[7], rfl⟩

end Snapshot

end WordHart
