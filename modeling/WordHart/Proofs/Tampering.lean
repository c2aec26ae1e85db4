import Mathlib
import WordHart.Proofs.ImageDetection
import WordHart.Proofs.Numerals
import WordHart.Proofs.Restore

namespace WordHart

theorem LittleEndian.ofWords_inj {left right : List Word} (same : ofWords left = ofWords right) :
    left = right := by
  have words := congrArg words? same
  rw [words?_ofWords, words?_ofWords] at words
  exact Option.some.inj words

namespace Sha256

/-- Two different messages with the same hash. -/
structure Collision (left right : List UInt8) : Prop where
  different : left ≠ right
  same : hash left = hash right

/-- A hasher that takes its message in pieces and returns the hash of all of them together. -/
structure Streaming (State : Type) where
  start : State
  update : State → List UInt8 → State
  finish : State → List UInt8
  finish_updates : ∀ pieces : List (List UInt8),
    finish (pieces.foldl update start) = hash pieces.flatten

/-- The hasher that puts the pieces together and hashes them at the end. -/
def Streaming.collecting : Streaming (List UInt8) where
  start := []
  update := (· ++ ·)
  finish := hash
  finish_updates pieces := by rw [List.foldl_append_eq_append, List.map_id', List.nil_append]

/-- Hashing word after word is hashing the image of the words. -/
theorem Streaming.finish_words {State : Type} (hasher : Streaming State) (words : List Word) :
    hasher.finish (words.foldl (fun state word => hasher.update state (LittleEndian.ofWord word))
      hasher.start) = hash (LittleEndian.ofWords words) := by
  rw [LittleEndian.ofWords, List.flatMap_def, ← hasher.finish_updates, List.foldl_map]

end Sha256

theorem digest_eq_iff {left right : List Word} :
    digest left = digest right ↔
      left = right ∨
        Sha256.Collision (LittleEndian.ofWords left) (LittleEndian.ofWords right) := by
  constructor
  · intro same
    by_cases equal : left = right
    · exact .inl equal
    · exact .inr ⟨fun image => equal (LittleEndian.ofWords_inj image), Numeral.hexBytes_inj same⟩
  · rintro (rfl | collision)
    · rfl
    · exact congrArg Numeral.hexBytes collision.same

namespace Snapshot

variable {snapshot : Snapshot}

theorem Intact.refuses_version (intact : snapshot.Intact) {version : String}
    (changed : version ≠ snapshot.version) :
    Machine.ofSnapshot { snapshot with version } = .error (.version version) := by
  refine Machine.ofSnapshot_of_refused (validate_of_version ?_)
  rwa [← intact.version]

theorem Intact.refuses_size (intact : snapshot.Intact) {memoryWords : BitVec 64}
    (changed : memoryWords ≠ snapshot.config.memoryWords) :
    Machine.ofSnapshot { snapshot with config.memoryWords := memoryWords } =
      .error (.size memoryWords.toNat snapshot.words.length) := by
  refine Machine.ofSnapshot_of_refused (validate_of_count intact.version fun count => ?_)
  exact changed (BitVec.eq_of_toNat_eq (count.symm.trans intact.count))

theorem Intact.refuses_digest (intact : snapshot.Intact) {digest : String}
    (changed : digest ≠ snapshot.digest) :
    Machine.ofSnapshot { snapshot with digest } = .error .digest := by
  refine Machine.ofSnapshot_of_refused (validate_of_digest intact.version intact.count ?_)
  rwa [← intact.digest]

theorem Intact.refuses_other_count (intact : snapshot.Intact) {words : List Word}
    (changed : words.length ≠ snapshot.words.length) :
    Machine.ofSnapshot { snapshot with words } =
      .error (.size snapshot.config.memoryWords.toNat words.length) := by
  refine Machine.ofSnapshot_of_refused (validate_of_count intact.version ?_)
  rwa [← intact.count]

theorem Intact.refuses_words (intact : snapshot.Intact) {words : List Word}
    (changed : words ≠ snapshot.words) (count : words.length = snapshot.words.length)
    (apart : ¬ Sha256.Collision (LittleEndian.ofWords snapshot.words)
      (LittleEndian.ofWords words)) :
    Machine.ofSnapshot { snapshot with words } = .error .digest := by
  have fits := count.trans intact.count
  refine Machine.ofSnapshot_of_refused (validate_of_digest intact.version fits fun same => ?_)
  rcases digest_eq_iff.mp (intact.digest.symm.trans same) with equal | collision
  · exact changed equal.symm
  · exact apart collision

end Snapshot

/-- The digest of a memory is the lower-case hexadecimal text of the hash of its bytes, and it tells
memories apart as far as the hash does. So a snapshot that is accepted is refused once one of the
fields that it is checked by is changed, and each is caught by a check of its own. -/
theorem Machine.ofSnapshot_refuses_tampering :
    (∀ memory : Memory,
      (digest memory.words).toList = (Sha256.hash memory.bytes).flatMap (fun byte =>
        [(byte.toNat / 16).digitChar, (byte.toNat % 16).digitChar]) ∧
      ∀ (State : Type) (hasher : Sha256.Streaming State),
        hasher.finish (memory.words.foldl
          (fun state word => hasher.update state (LittleEndian.ofWord word)) hasher.start) =
            Sha256.hash memory.bytes) ∧
    (∀ left right : Memory, digest left.words = digest right.words ↔
      left.words = right.words ∨ Sha256.Collision left.bytes right.bytes) ∧
    ∀ snapshot machine, ofSnapshot snapshot = .ok machine →
      (∀ version, version ≠ snapshot.version →
        ofSnapshot { snapshot with version } = .error (.version version)) ∧
      (∀ memoryWords, memoryWords ≠ snapshot.config.memoryWords →
        ofSnapshot { snapshot with config.memoryWords := memoryWords } =
          .error (.size memoryWords.toNat snapshot.words.length)) ∧
      (∀ digest, digest ≠ snapshot.digest →
        ofSnapshot { snapshot with digest } = .error .digest) ∧
      ∀ words, words ≠ snapshot.words →
        (words.length ≠ snapshot.words.length →
          ofSnapshot { snapshot with words } =
            .error (.size snapshot.config.memoryWords.toNat words.length)) ∧
        (words.length = snapshot.words.length →
          ofSnapshot { snapshot with words } = .error .digest ∨
            Sha256.Collision (LittleEndian.ofWords snapshot.words)
              (LittleEndian.ofWords words)) := by
  refine ⟨fun memory => ⟨Numeral.toList_hexBytes _, fun State hasher => ?_⟩,
    fun left right => digest_eq_iff, fun snapshot machine accepted => ?_⟩
  · exact hasher.finish_words memory.words
  · obtain ⟨intact, -⟩ := ofSnapshot_eq_ok_iff.mp accepted
    refine ⟨fun version changed => intact.refuses_version changed,
      fun memoryWords changed => intact.refuses_size changed,
      fun digest changed => intact.refuses_digest changed,
      fun words changed => ⟨fun other => intact.refuses_other_count other, fun count => ?_⟩⟩
    by_cases collision : Sha256.Collision (LittleEndian.ofWords snapshot.words)
        (LittleEndian.ofWords words)
    · exact .inr collision
    · exact .inl (intact.refuses_words changed count collision)

theorem Machine.ofSnapshot_refuses_tampering_two_words :
    let snapshot := (Machine.new ⟨2, {}⟩).snapshot
    let hasher := Sha256.Streaming.collecting
    hasher.finish ((Memory.zero 2).words.foldl
        (fun state word => hasher.update state (LittleEndian.ofWord word)) hasher.start) =
          Sha256.hash (Memory.zero 2).bytes ∧
      ofSnapshot { snapshot with version := "1.10" } = .error (.version "1.10") ∧
      ofSnapshot { snapshot with config.memoryWords := 1 } = .error (.size 1 2) ∧
      ofSnapshot { snapshot with digest := snapshot.digest ++ "0" } = .error .digest ∧
      ofSnapshot { snapshot with words := [0, 0, 0] } = .error (.size 2 3) ∧
      (ofSnapshot { snapshot with words := [0x13, 0] } = .error .digest ∨
        Sha256.Collision (LittleEndian.ofWords [0, 0]) (LittleEndian.ofWords [0x13, 0])) := by
  intro snapshot hasher
  have accepted : ofSnapshot snapshot = .ok snapshot.machine :=
    ofSnapshot_of_intact ⟨rfl, by decide, rfl⟩
  obtain ⟨version, size, digest, words⟩ := ofSnapshot_refuses_tampering.2.2 snapshot _ accepted
  have longer : snapshot.digest ++ "0" ≠ snapshot.digest := by simp
  exact ⟨(ofSnapshot_refuses_tampering.1 (.zero 2)).2 _ hasher, version _ (by decide),
    size 1 (by decide), digest _ longer, (words [0, 0, 0] (by decide)).1 (by decide),
    (words [0x13, 0] (by decide)).2 rfl⟩

end WordHart
