import Mathlib
import WordHart.File.Tree

namespace WordHart.FileTree

variable {tree after : FileTree} {path : String} {place elsewhere : List String} {data : List UInt8}

theorem lookup_filter_of_ne (nodes : List (List String × FileNode)) (apart : elsewhere ≠ place) :
    (nodes.filter fun node => node.1 ≠ place).lookup elsewhere = nodes.lookup elsewhere := by
  induction nodes with
  | nil => rfl
  | cons node nodes inductionHypothesis =>
      by_cases removed : node.1 = place
      · have skipped : (elsewhere == node.1) = false := by
          rw [removed]
          exact beq_false_of_ne apart
        rw [List.filter_cons_of_neg (by simpa using removed), inductionHypothesis,
          List.lookup_cons, skipped]
      · rw [List.filter_cons_of_pos (by simpa using removed), List.lookup_cons, List.lookup_cons,
          inductionHypothesis]

theorem write_of_target (found : tree.target path = .ok place) (data : List UInt8) :
    tree.write path data =
      .ok ⟨(place, .file data) :: tree.nodes.filter fun node => node.1 ≠ place⟩ := by
  simp only [write, found]
  rfl

theorem node?_write_of_ne (found : tree.target path = .ok place)
    (written : tree.write path data = .ok after) (apart : elsewhere ≠ place) :
    after.node? elsewhere = tree.node? elsewhere := by
  rw [write_of_target found] at written
  cases written
  simp only [node?, List.lookup_cons, beq_false_of_ne apart, lookup_filter_of_ne _ apart]

/-- A path to be written does not end in a slash, and no directory stands at its end. -/
theorem follow_of_target (found : tree.target path = .ok place) :
    path.utf8ByteSize ≤ pathLimit ∧ endsWithSlash path = false ∧
      tree.follow (names path) = .ok place ∧ tree.node? place ≠ some .directory := by
  unfold FileTree.target at found
  split at found
  case isTrue => contradiction
  case isFalse short =>
    split at found
    case isTrue =>
      cases followed : tree.follow ((names path).dropLast ++ ["."]) <;>
        simp [followed, bind, Except.bind] at found
    case isFalse plain =>
      cases followed : tree.follow (names path) with
      | error reason => simp [followed, bind, Except.bind] at found
      | ok last =>
          simp only [followed, bind, Except.bind] at found
          split at found
          case h_1 => contradiction
          case h_2 absent =>
            cases found
            exact ⟨Nat.le_of_not_lt short, eq_false_of_ne_true plain, rfl, absent⟩

theorem node?_of_enter {name : String} {next : List String}
    (entered : tree.enter elsewhere name = .ok next) : tree.node? elsewhere = some .directory := by
  unfold enter at entered
  split at entered
  case h_1 => contradiction
  case h_2 => contradiction
  case h_3 directory => exact directory

theorem enter_congr (name : String) (same : after.node? elsewhere = tree.node? elsewhere) :
    after.enter elsewhere name = tree.enter elsewhere name := by
  simp only [enter, same]

theorem foldlM_enter_write (found : tree.target path = .ok place)
    (written : tree.write path data = .ok after) (absent : tree.node? place ≠ some .directory)
    {names : List String} {start last : List String}
    (followed : names.foldlM tree.enter start = .ok last) :
    names.foldlM after.enter start = .ok last := by
  induction names generalizing start with
  | nil => exact followed
  | cons name names inductionHypothesis =>
      rw [List.foldlM_cons] at followed ⊢
      cases entered : tree.enter start name with
      | error reason =>
          rw [entered] at followed
          contradiction
      | ok next =>
          rw [entered] at followed
          have directory := node?_of_enter entered
          have apart : start ≠ place := by
            rintro rfl
            exact absent directory
          rw [enter_congr name (node?_write_of_ne found written apart), entered]
          exact inductionHypothesis followed

/-- A file that was written is read back from the same path. -/
theorem read_write (found : tree.target path = .ok place)
    (written : tree.write path data = .ok after) : after.read path = .ok data := by
  obtain ⟨short, plain, followed, absent⟩ := follow_of_target found
  have again : after.follow (names path) = .ok place :=
    foldlM_enter_write found written absent followed
  have stands := node?_write found written
  rw [read, if_neg (Nat.not_lt.mpr short), again]
  simp [bind, Except.bind, stands, plain]

end WordHart.FileTree
