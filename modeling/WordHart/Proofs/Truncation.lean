import Mathlib
import WordHart.Proofs.SnapshotBytes

/-!
A number that is not all there is the end of the input; a text that is not all
there is longer than the rest of the input, and this is seen before its bytes are
looked at. So the fault tells whether a cut lies inside a text.
-/

namespace WordHart

namespace Codec

variable {α β : Type}

/-- The bytes of a value are refused wherever they are cut off: as too short for a text where the
cut is inside one, and as ended too early anywhere else. -/
def Cuts (codec : Codec α) (sized : α → Prop) (inText : α → Nat → Prop) : Prop :=
  ∀ value, sized value → ∀ kept < (codec.encode value).length,
    (inText value kept → codec.decode ((codec.encode value).take kept) = .error .textTooLong) ∧
    (¬ inText value kept → codec.decode ((codec.encode value).take kept) = .error .endOfInput)

/-- The same for values without a text in them. -/
def CutsPlainly (codec : Codec α) : Prop := codec.Cuts (fun _ => True) fun _ _ => False

theorem Cuts.of_iff {codec : Codec α} {sized wanted : α → Prop} {inText wantedText : α → Nat → Prop}
    (cuts : codec.Cuts sized inText) (agree : ∀ value, wanted value ↔ sized value)
    (agreeText : ∀ value kept, wantedText value kept ↔ inText value kept) :
    codec.Cuts wanted wantedText := by
  intro value fits kept short
  rw [agreeText]
  exact cuts value ((agree value).mp fits) kept short

theorem cutsPlainly_iff {codec : Codec α} :
    codec.CutsPlainly ↔ ∀ value, ∀ kept < (codec.encode value).length,
      codec.decode ((codec.encode value).take kept) = .error .endOfInput := by
  constructor
  · intro plain value kept short
    exact (plain value trivial kept short).2 not_false
  · intro refused value _ kept short
    exact ⟨False.elim, fun _ => refused value kept short⟩

theorem split?_of_short {count : Nat} {data : List UInt8} (short : data.length < count) :
    split? count data = none := by
  cases found : split? count data with
  | none => rfl
  | some pieces =>
      obtain ⟨front, rest⟩ := pieces
      obtain ⟨rfl, rfl⟩ := split?_eq_some_iff.mp found
      rw [List.length_append] at short
      omega

theorem number_cuts (count : Nat) : (number count).CutsPlainly := by
  rw [cutsPlainly_iff]
  intro value kept short
  simp only [number, LittleEndian.length_bytes] at short ⊢
  have missing : split? count ((LittleEndian.bytes count value.toNat).take kept) = none := by
    apply split?_of_short
    rw [List.length_take, LittleEndian.length_bytes]
    omega
  simp only [missing]

theorem word_cuts : word.CutsPlainly := number_cuts 4

theorem long_cuts : long.CutsPlainly := number_cuts 8

theorem switch_cuts : switch.CutsPlainly := by
  rw [cutsPlainly_iff]
  intro value kept short
  have none : kept = 0 := Nat.lt_one_iff.mp short
  rw [none]
  rfl

/-- A value whose bytes are all there is read, and what is behind it is cut instead. -/
theorem decode_take_of_le {codec : Codec α} {sized : α → Prop} (exact : codec.Exact sized)
    {value : α} (fits : sized value) (back : List UInt8) {kept : Nat}
    (reaches : (codec.encode value).length ≤ kept) :
    codec.decode ((codec.encode value ++ back).take kept) =
      .ok (value, back.take (kept - (codec.encode value).length)) := by
  rw [List.take_append, List.take_of_length_le reaches]
  exact (exact _ _ _).mpr ⟨fits, rfl⟩

theorem Cuts.pair {first : Codec α} {second : Codec β} {left : α → Prop} {right : β → Prop}
    {inFirst : α → Nat → Prop} {inSecond : β → Nat → Prop} (firstCuts : first.Cuts left inFirst)
    (firstExact : first.Exact left) (secondCuts : second.Cuts right inSecond) :
    (first.pair second).Cuts (fun value => left value.1 ∧ right value.2) fun value kept =>
      let size := (first.encode value.1).length
      kept < size ∧ inFirst value.1 kept ∨ size ≤ kept ∧ inSecond value.2 (kept - size) := by
  rintro ⟨front, back⟩ ⟨frontFits, backFits⟩ kept short
  have total : ((first.pair second).encode (front, back)).length =
      (first.encode front).length + (second.encode back).length := List.length_append
  by_cases inside : kept < (first.encode front).length
  · have taken : ((first.pair second).encode (front, back)).take kept =
        (first.encode front).take kept := List.take_append_of_le_length (Nat.le_of_lt inside)
    have failed {fault : EncodingFault}
        (cut : first.decode ((first.encode front).take kept) = .error fault) :
        (first.pair second).decode (((first.pair second).encode (front, back)).take kept) =
          .error fault := by
      rw [taken]
      simp only [Codec.pair, cut]
      rfl
    have cuts := firstCuts front frontFits kept inside
    simp only [inside, Nat.not_le_of_lt inside, true_and, false_and, or_false]
    exact cuts.imp (failed ∘ ·) (failed ∘ ·)
  · have read := decode_take_of_le firstExact frontFits (second.encode back)
      (Nat.le_of_not_lt inside)
    have failed {fault : EncodingFault}
        (cut : second.decode ((second.encode back).take (kept - (first.encode front).length)) =
          .error fault) :
        (first.pair second).decode (((first.pair second).encode (front, back)).take kept) =
          .error fault := by
      simp only [Codec.pair, read]
      change second.decode _ >>= _ = _
      rw [cut]
      rfl
    have cuts := secondCuts back backFits (kept - (first.encode front).length) (by omega)
    simp only [inside, Nat.le_of_not_lt inside, true_and, false_and, false_or]
    exact cuts.imp (failed ∘ ·) (failed ∘ ·)

theorem Cuts.imap {codec : Codec α} {sized : α → Prop} {inText : α → Nat → Prop} {build : α → β}
    {takeApart : β → α} (cuts : codec.Cuts sized inText) :
    (codec.imap build takeApart).Cuts (fun value => sized (takeApart value)) fun value =>
      inText (takeApart value) := by
  intro value fits kept short
  have failed {fault : EncodingFault}
      (cut : codec.decode ((codec.encode (takeApart value)).take kept) = .error fault) :
      (codec.imap build takeApart).decode
        (((codec.imap build takeApart).encode value).take kept) = .error fault := by
    simp only [Codec.imap, cut]
    rfl
  exact (cuts (takeApart value) fits kept short).imp (failed ∘ ·) (failed ∘ ·)

namespace CutsPlainly

theorem pair {first : Codec α} {second : Codec β} (firstCuts : first.CutsPlainly)
    (firstExact : first.Exact fun _ => True) (secondCuts : second.CutsPlainly) :
    (first.pair second).CutsPlainly :=
  (Cuts.pair firstCuts firstExact secondCuts).of_iff (fun _ => by simp) fun _ _ => by simp

/-- In front of another value, plain bytes of a fixed number only move the cuts. -/
theorem before {first : Codec α} {second : Codec β} {right : β → Prop} {inSecond : β → Nat → Prop}
    {count : Nat} (firstCuts : first.CutsPlainly) (firstExact : first.Exact fun _ => True)
    (size : ∀ value, (first.encode value).length = count)
    (secondCuts : second.Cuts right inSecond) :
    (first.pair second).Cuts (fun value => right value.2) fun value kept =>
      count ≤ kept ∧ inSecond value.2 (kept - count) := by
  refine (Cuts.pair firstCuts firstExact secondCuts).of_iff (fun _ => by simp) fun value kept => ?_
  simp only [size, and_false, false_or]

theorem imap {codec : Codec α} {build : α → β} {takeApart : β → α} (cuts : codec.CutsPlainly) :
    (codec.imap build takeApart).CutsPlainly := Cuts.imap cuts

theorem vector {item : Codec α} (cuts : item.CutsPlainly) (exact : item.Exact fun _ => True)
    (count : Nat) : (item.vector count).CutsPlainly := by
  induction count with
  | zero =>
      intro _ _ kept short
      exact absurd short (Nat.not_lt_zero kept)
  | succ count inductionHypothesis =>
      exact (inductionHypothesis.pair (exact.vector count) cuts).imap

theorem decodeMany {item : Codec α} (cuts : item.CutsPlainly) (exact : item.Exact fun _ => True)
    (items : List α) {kept : Nat} (short : kept < (items.flatMap item.encode).length) :
    decodeMany item items.length ((items.flatMap item.encode).take kept) =
      .error .endOfInput := by
  induction items generalizing kept with
  | nil => exact absurd short (Nat.not_lt_zero kept)
  | cons first others inductionHypothesis =>
      rw [List.flatMap_cons] at short ⊢
      rw [List.length_append] at short
      rw [List.length_cons, Codec.decodeMany]
      by_cases inside : kept < (item.encode first).length
      · rw [List.take_append_of_le_length (Nat.le_of_lt inside),
          cutsPlainly_iff.mp cuts first kept inside]
        rfl
      · rw [decode_take_of_le exact trivial _ (Nat.le_of_not_lt inside)]
        change Codec.decodeMany item others.length _ >>= _ = _
        rw [inductionHypothesis (by omega)]
        rfl

theorem list {item : Codec α} (cuts : item.CutsPlainly) (exact : item.Exact fun _ => True) :
    item.list.Cuts (fun items => items.length < 2 ^ 64) fun _ _ => False := by
  intro items fits kept short
  refine ⟨False.elim, fun _ => ?_⟩
  have counted := toNat_ofNat_of_lt fits
  change kept < (long.encode (BitVec.ofNat 64 items.length) ++ _).length at short
  rw [List.length_append] at short
  change long.decode ((long.encode (BitVec.ofNat 64 items.length) ++ _).take kept) >>= _ = _
  by_cases inside : kept < (long.encode (BitVec.ofNat 64 items.length)).length
  · rw [List.take_append_of_le_length (Nat.le_of_lt inside),
      cutsPlainly_iff.mp long_cuts _ kept inside]
    rfl
  · rw [decode_take_of_le long_exact trivial _ (Nat.le_of_not_lt inside)]
    change Codec.decodeMany item (BitVec.ofNat 64 items.length).toNat _ = _
    rw [counted]
    exact cuts.decodeMany exact items (by omega)

end CutsPlainly

@[simp] theorem length_encode_number (count : Nat) (value : BitVec (8 * count)) :
    ((number count).encode value).length = count := LittleEndian.length_bytes count _

theorem length_encode_text (value : String) :
    (text.encode value).length = 8 + (Utf8.encode value).length := by
  rw [text, List.length_append]
  exact congrArg (· + _) (LittleEndian.length_bytes 8 _)

theorem text_cuts :
    text.Cuts (fun value => (Utf8.encode value).length < 2 ^ 64) fun _ kept => 8 ≤ kept := by
  intro value fits kept short
  have counted := toNat_ofNat_of_lt fits
  have eight : (long.encode (BitVec.ofNat 64 (Utf8.encode value).length)).length = 8 :=
    LittleEndian.length_bytes 8 _
  rw [length_encode_text] at short
  constructor
  · intro behind
    have missing : split? (Utf8.encode value).length ((Utf8.encode value).take (kept - 8)) =
        none := by
      apply split?_of_short
      rw [List.length_take]
      omega
    change long.decode ((long.encode _ ++ Utf8.encode value).take kept) >>= _ = _
    rw [decode_take_of_le long_exact trivial _ (eight.trans_le behind), eight]
    simp only [bind, Except.bind, counted, missing]
  · intro inside
    have before : kept < (long.encode (BitVec.ofNat 64 (Utf8.encode value).length)).length := by
      omega
    change long.decode ((long.encode _ ++ Utf8.encode value).take kept) >>= _ = _
    rw [List.take_append_of_le_length (Nat.le_of_lt before),
      cutsPlainly_iff.mp long_cuts _ kept before]
    rfl

end Codec

theorem Config.codec_cuts : Config.codec.CutsPlainly :=
  (Codec.long_cuts.pair Codec.long_exact
    (Codec.switch_cuts.pair Codec.switch_exact Codec.switch_cuts)).imap

theorem RegisterFile.codec_cuts : RegisterFile.codec.CutsPlainly :=
  (Codec.word_cuts.vector Codec.word_exact 32).imap

theorem Counters.codec_cuts : Counters.codec.CutsPlainly :=
  (Codec.long_cuts.pair Codec.long_exact
    (Codec.long_cuts.pair Codec.long_exact Codec.long_cuts)).imap

theorem Config.length_encode_codec (config : Config) :
    (Config.codec.encode config).length = 10 := rfl

theorem Counters.length_encode_codec (counters : Counters) :
    (Counters.codec.encode counters).length = 24 := rfl

theorem RegisterFile.length_encode_codec (file : RegisterFile) :
    (RegisterFile.codec.encode file).length = 128 := by
  have written : RegisterFile.codec.encode file = LittleEndian.ofWords file.toList :=
    Snapshot.encode_vector Codec.word file.cells
  rw [written, LittleEndian.length_ofWords, length_toList]

namespace Snapshot

/-- So many bytes end inside one of the two texts of a snapshot. Between the texts there are 166
bytes, and each text stands behind the number of its bytes. -/
def EndsInText (snapshot : Snapshot) (kept : Nat) : Prop :=
  let version := (Utf8.encode snapshot.version).length
  let digest := (Utf8.encode snapshot.digest).length
  8 ≤ kept ∧ kept < 8 + version ∨ 182 + version ≤ kept ∧ kept < 182 + version + digest

instance (snapshot : Snapshot) (kept : Nat) : Decidable (snapshot.EndsInText kept) :=
  inferInstanceAs (Decidable (_ ∨ _))

theorem codec_cuts : codec.Cuts Sized EndsInText := by
  have fields := Codec.text_cuts.pair Codec.text_exact <|
    Config.codec_cuts.before Config.codec_exact Config.length_encode_codec <|
    Codec.word_cuts.before Codec.word_exact (Codec.length_encode_number 4) <|
    RegisterFile.codec_cuts.before RegisterFile.codec_exact RegisterFile.length_encode_codec <|
    Counters.codec_cuts.before Counters.codec_exact Counters.length_encode_codec <|
    Codec.text_cuts.pair Codec.text_exact <|
    Codec.word_cuts.list Codec.word_exact
  refine fields.imap.of_iff (fun snapshot => ?_) fun snapshot kept => ?_
  · constructor
    · intro sized
      exact ⟨sized.version, sized.digest, sized.words⟩
    · intro sizes
      rcases sizes with ⟨version, digest, words⟩
      exact ⟨version, digest, words⟩
  · simp only [EndsInText, Codec.length_encode_text, and_false, or_false]
    omega

/-- The bytes of a snapshot that are cut off anywhere are refused, and the fault tells whether they
are cut inside a text. -/
theorem ofBytes_refuses_cut_off (snapshot : Snapshot) (sized : snapshot.Sized) (kept : Nat)
    (short : kept < snapshot.toBytes.length) :
    ∃ fault, ofBytes (snapshot.toBytes.take kept) = .error fault ∧
      (fault.text = "snapshot encoding error: io error: " ↔ snapshot.EndsInText kept) ∧
      (fault.text = "snapshot encoding error: io error: unexpected end of file" ↔
        ¬ snapshot.EndsInText kept) := by
  obtain ⟨inside, outside⟩ := codec_cuts snapshot sized kept short
  by_cases inText : snapshot.EndsInText kept
  · refine ⟨.textTooLong, ?_, iff_of_true rfl inText, iff_of_false (by decide) (not_not.mpr inText)⟩
    rw [ofBytes, toBytes, inside inText]
    rfl
  · refine ⟨.endOfInput, ?_, iff_of_false (by decide) inText, iff_of_true rfl inText⟩
    rw [ofBytes, toBytes, outside inText]
    rfl

/-- The first cut goes through the two bytes of a character, the second through the last word. -/
theorem ofBytes_refuses_cut_off_split_character :
    let snapshot : Snapshot := ⟨"né", {}, 1, .zero, {}, "d", [0x13]⟩
    (∃ fault, ofBytes (snapshot.toBytes.take 10) = .error fault ∧
      fault.text = "snapshot encoding error: io error: ") ∧
    ∃ fault, ofBytes (snapshot.toBytes.take 196) = .error fault ∧
      fault.text = "snapshot encoding error: io error: unexpected end of file" := by
  intro snapshot
  have sized : snapshot.Sized := ⟨by decide, by decide, by decide⟩
  have length : snapshot.toBytes.length = 198 := by decide +kernel
  obtain ⟨first, refused, inText, -⟩ := ofBytes_refuses_cut_off snapshot sized 10 (by omega)
  obtain ⟨second, again, -, outside⟩ := ofBytes_refuses_cut_off snapshot sized 196 (by omega)
  exact ⟨⟨first, refused, inText.mpr (by decide)⟩, second, again, outside.mpr (by decide)⟩

end Snapshot

end WordHart
