import Mathlib
import WordHart.Proofs.TextJoining

namespace WordHart.Image

/-- A token stands in a text behind `before` and in front of `after`. -/
structure TokenAt (text before token after : List Char) : Prop where
  parted : text = before ++ token ++ after
  nonempty : token ≠ []
  solid : ∀ c ∈ token, isSeparator c = false
  begins : ∀ c ∈ before.getLast?, isSeparator c = true
  ends : (∀ c ∈ after.head?, isSeparator c = true) ∨ OpensComment after
  /-- No comment opens on its line in front of its end. -/
  uncommented : ∀ opened, opened <:+ before ++ token → opened ≠ [] → '\n' ∉ opened →
    ¬ OpensComment (opened ++ after)

/-- There is a separator on one side of the border between two texts, or nothing at all. -/
def Apart (front back : List Char) : Prop :=
  (∀ c ∈ front.getLast?, isSeparator c = true) ∨ ∀ c ∈ back.head?, isSeparator c = true

variable {text before token after earlier other rest front back : List Char}

theorem OpensComment.mono (opens : OpensComment front) (longer : front <+: back) :
    OpensComment back :=
  opens.imp (·.trans longer) (·.trans longer)

/-- No comment opens across a border at which a separator stands. -/
theorem OpensComment.of_apart {opened : List Char} (opens : OpensComment (opened ++ back))
    (apart : Apart front back) (within : opened <:+ front) (nonempty : opened ≠ []) :
    OpensComment opened := by
  have begins : opened <+: opened ++ back := List.prefix_append opened back
  have one : 1 ≤ opened.length := List.length_pos_of_ne_nil nonempty
  rcases opens with hash | slashes
  · exact .inl (List.prefix_of_prefix_length_le hash begins one)
  · by_cases two : 2 ≤ opened.length
    · exact .inr (List.prefix_of_prefix_length_le slashes begins two)
    · obtain ⟨c, rfl⟩ := List.length_eq_one_iff.mp (Nat.le_antisymm (by omega) one)
      obtain ⟨more, same⟩ := slashes
      cases same
      rcases apart with stops | starts
      · obtain ⟨earlier, rfl⟩ := within
        exact absurd (stops '/' List.getLast?_concat) (by decide)
      · exact absurd (starts '/' rfl) (by decide)

/-- No comment opens in a stretch, not even with what follows. -/
def Uncommented (front back : List Char) : Prop :=
  ∀ opened, opened <:+ front → opened ≠ [] → ¬ OpensComment (opened ++ back)

theorem code_append (uncommented : Uncommented front back) :
    code (front ++ back) = front ++ code back := by
  induction front with
  | nil => rfl
  | cons c front inductionHypothesis =>
      have closed : ¬ OpensComment (c :: (front ++ back)) :=
        uncommented (c :: front) List.suffix_rfl (List.cons_ne_nil c front)
      have later : Uncommented front back :=
        fun opened within => uncommented opened (within.trans (List.suffix_cons c front))
      rw [List.cons_append, code_cons closed, inductionHypothesis later, List.cons_append]

theorem Uncommented.code_eq (uncommented : Uncommented front back) : code front = front := by
  have alone : Uncommented front [] := by
    intro opened within nonempty opens
    rw [List.append_nil] at opens
    exact uncommented opened within nonempty (opens.mono (List.prefix_append opened back))
  have kept := code_append alone
  rwa [List.append_nil, code, List.append_nil] at kept

theorem Uncommented.shrink {middle : List Char} (uncommented : Uncommented (front ++ middle) back) :
    Uncommented front (middle ++ back) := by
  intro opened within nonempty
  rw [← List.append_assoc]
  exact uncommented _ (List.suffix_append_self_iff.mpr within)
    (List.append_ne_nil_of_left_ne_nil nonempty middle)

theorem mem_head?_of_code {line : List Char} {c : Char} (member : c ∈ (code line).head?) :
    c ∈ line.head? := by
  obtain ⟨more, split⟩ := (codeOf_code line).front
  rw [Option.mem_def] at member
  rw [← split, List.head?_append, member]
  rfl

theorem not_stops_of_solid (nonempty : token ≠ []) (solid : ∀ c ∈ token, isSeparator c = false) :
    ¬ ∀ c ∈ (before ++ token).getLast?, isSeparator c = true := by
  intro stops
  obtain ⟨c, last⟩ := Option.isSome_iff_exists.mp (List.getLast?_isSome.mpr nonempty)
  rw [List.getLast?_append_of_ne_nil before nonempty] at stops
  have separates := stops c last
  rw [solid c (List.mem_of_getLast? last)] at separates
  contradiction

theorem apart_newline (front back : List Char) : Apart front ('\n' :: back) :=
  .inr (by simp [isSeparator, isBlank])

/-- Beyond a separator a text may go on as it likes. -/
theorem tokenAt_append_iff (apart : Apart front back) :
    TokenAt (front ++ back) before token (after ++ back) ↔ TokenAt front before token after := by
  have border : front ++ back = before ++ token ++ (after ++ back) ↔
      front = before ++ token ++ after := by
    rw [← List.append_assoc, List.append_cancel_right_eq]
  refine ⟨fun stands => ?_, fun stands => ?_⟩
  · have parted := border.mp stands.parted
    refine ⟨parted, stands.nonempty, stands.solid, stands.begins, ?_, ?_⟩
    · by_cases last : after = []
      · subst last
        exact .inl nofun
      · have within : after <:+ front := parted ▸ List.suffix_append _ after
        have heads := stands.ends
        rw [List.head?_append_of_ne_nil after last] at heads
        exact heads.imp_right (·.of_apart apart within last)
    · intro opened within nonempty unbroken opens
      refine stands.uncommented opened within nonempty unbroken (opens.mono ?_)
      rw [← List.append_assoc]
      exact List.prefix_append _ back
  · have parted := stands.parted
    refine ⟨border.mpr parted, stands.nonempty, stands.solid, stands.begins, ?_, ?_⟩
    · by_cases last : after = []
      · subst last
        rw [List.append_nil] at parted
        subst parted
        exact .inl (apart.resolve_left (not_stops_of_solid stands.nonempty stands.solid))
      · rw [List.head?_append_of_ne_nil after last]
        exact stands.ends.imp_right (·.mono (List.prefix_append after back))
    · intro opened within nonempty unbroken opens
      rw [← List.append_assoc] at opens
      have inside : opened ++ after <:+ front := by
        rw [parted]
        exact List.suffix_append_self_iff.mpr within
      have alone := opens.of_apart apart inside (List.append_ne_nil_of_left_ne_nil nonempty after)
      exact stands.uncommented opened within nonempty unbroken alone

theorem suffix_append_newline_iff {opened line : List Char} (unbroken : '\n' ∉ opened) :
    opened <:+ line ++ '\n' :: text ↔ opened <:+ text := by
  have below : text <:+ line ++ '\n' :: text := (List.suffix_cons '\n' text).trans
    (List.suffix_append line _)
  refine ⟨fun within => ?_, (·.trans below)⟩
  rcases List.suffix_or_suffix_of_suffix within (List.suffix_append line ('\n' :: text)) with
    shorter | longer
  · rcases List.suffix_cons_iff.mp shorter with rfl | inside
    · exact absurd List.mem_cons_self unbroken
    · exact inside
  · exact absurd (longer.mem List.mem_cons_self) unbroken

theorem tokenAt_newline_iff {line : List Char} :
    TokenAt (line ++ '\n' :: text) (line ++ '\n' :: before) token after ↔
      TokenAt text before token after := by
  have border : line ++ '\n' :: text = line ++ '\n' :: before ++ token ++ after ↔
      text = before ++ token ++ after := by
    simp [List.append_assoc]
  have start : (∀ c ∈ (line ++ '\n' :: before).getLast?, isSeparator c = true) ↔
      ∀ c ∈ before.getLast?, isSeparator c = true := by
    cases before with
    | nil => simp [isSeparator, isBlank]
    | cons c before => rw [List.getLast?_append_of_ne_nil line (by simp), List.getLast?_cons_cons]
  refine ⟨fun stands => ⟨border.mp stands.parted, stands.nonempty, stands.solid,
    start.mp stands.begins, stands.ends, fun opened within nonempty unbroken => ?_⟩,
    fun stands => ⟨border.mpr stands.parted, stands.nonempty, stands.solid,
      start.mpr stands.begins, stands.ends, fun opened within nonempty unbroken => ?_⟩⟩
  · apply stands.uncommented opened _ nonempty unbroken
    rw [List.append_assoc, List.cons_append]
    exact (suffix_append_newline_iff unbroken).mpr within
  · rw [List.append_assoc, List.cons_append, suffix_append_newline_iff unbroken] at within
    exact stands.uncommented opened within nonempty unbroken

theorem numberedTokens_of_unbroken (unbroken : '\n' ∉ text) :
    numberedTokens text = (tokens (code text)).map (1, ·) := by
  rw [numberedTokens, lines, List.splitOn_eq_singleton unbroken, List.zipIdx_singleton,
    List.flatMap_singleton]

theorem tokens_around (nonempty : token ≠ []) (solid : ∀ c ∈ token, isSeparator c = false)
    (begins : ∀ c ∈ before.getLast?, isSeparator c = true)
    (ends : ∀ c ∈ after.head?, isSeparator c = true) :
    tokens (before ++ token ++ after) = tokens before ++ token :: tokens after := by
  have nothing : tokens [] = [] := rfl
  have behind : tokens (token ++ after) = token :: tokens after := by
    cases after with
    | nil => rw [List.append_nil, tokens_of_solid nonempty solid, nothing]
    | cons c after =>
        have separator : isSeparator c = true := ends c rfl
        have skipped := tokens_append_separator separator [] after
        rw [nothing, List.nil_append, List.nil_append] at skipped
        rw [tokens_append_separator separator, tokens_of_solid nonempty solid, skipped,
          List.singleton_append]
  rw [List.append_assoc]
  rcases List.eq_nil_or_concat' before with rfl | ⟨front, c, rfl⟩
  · exact behind
  · have separator : isSeparator c = true := begins c List.getLast?_concat
    have stopped := tokens_append_separator separator front []
    rw [nothing, List.append_nil] at stopped
    rw [stopped, ← behind, ← tokens_append_separator separator, List.append_assoc,
      List.singleton_append]

theorem TokenAt.newline_not_mem (stands : TokenAt text before token after) : '\n' ∉ token :=
  fun newline => absurd (stands.solid '\n' newline) (by decide)

theorem TokenAt.uncommented_of_first_line (stands : TokenAt text before token after)
    (first : '\n' ∉ before) : Uncommented (before ++ token) after := by
  intro opened within nonempty
  refine stands.uncommented opened within nonempty fun newline => ?_
  rcases List.mem_append.mp (within.mem newline) with inBefore | inToken
  · exact first inBefore
  · exact stands.newline_not_mem inToken

theorem TokenAt.numberedTokens_before (stands : TokenAt text before token after)
    (first : '\n' ∉ before) : numberedTokens before = (tokens before).map (1, ·) := by
  rw [numberedTokens_of_unbroken first, (stands.uncommented_of_first_line first).shrink.code_eq]

theorem TokenAt.numberedTokens_of_unbroken (stands : TokenAt text before token after)
    (unbroken : '\n' ∉ text) :
    numberedTokens text =
      numberedTokens before ++ (1, token) :: (tokens (code after)).map (1, ·) := by
  have parted := stands.parted
  subst parted
  have first : '\n' ∉ before := by
    intro newline
    exact unbroken (List.mem_append_left _ (List.mem_append_left _ newline))
  have ends : ∀ c ∈ (code after).head?, isSeparator c = true := by
    rcases stands.ends with separated | opens
    · exact fun c member => separated c (mem_head?_of_code member)
    · rw [code_of_opensComment opens]
      exact nofun
  rw [Image.numberedTokens_of_unbroken unbroken, stands.numberedTokens_before first,
    code_append (stands.uncommented_of_first_line first),
    tokens_around stands.nonempty stands.solid stands.begins ends, List.map_append, List.map_cons]

theorem TokenAt.exists_numberedTokens_of_first_line (stands : TokenAt text before token after)
    (first : '\n' ∉ before) :
    ∃ more, numberedTokens text = numberedTokens before ++ (1, token) :: more := by
  have parted := stands.parted
  have inside := stands.newline_not_mem
  by_cases broken : '\n' ∈ after
  · obtain ⟨front, back, rfl, unbroken⟩ := List.eq_append_cons_of_mem broken
    rw [← List.append_assoc] at parted
    subst parted
    have alone := (tokenAt_append_iff (apart_newline _ back)).mp stands
    have line : '\n' ∉ before ++ token ++ front := by simp [first, inside, unbroken]
    rw [numberedTokens_append_newline, alone.numberedTokens_of_unbroken line, List.append_assoc,
      List.cons_append]
    exact ⟨_, rfl⟩
  · have line : '\n' ∉ text := by simp [parted, first, inside, broken]
    exact ⟨_, stands.numberedTokens_of_unbroken line⟩

/-- The tokens in front of a token are those of the text before it. -/
theorem TokenAt.exists_numberedTokens (stands : TokenAt text before token after) :
    ∃ more, numberedTokens text =
      numberedTokens before ++ (1 + before.count '\n', token) :: more := by
  induction length : before.length using Nat.strong_induction_on generalizing text before with
  | h n inductionHypothesis =>
      by_cases broken : '\n' ∈ before
      · obtain ⟨line, front, rfl, -⟩ := List.eq_append_cons_of_mem broken
        obtain ⟨later, rfl⟩ : ∃ later, text = line ++ '\n' :: later :=
          ⟨front ++ token ++ after, by rw [stands.parted]; simp⟩
        have shorter : front.length < n := by
          rw [← length]
          simp
          omega
        obtain ⟨more, read⟩ :=
          inductionHypothesis _ shorter (tokenAt_newline_iff.mp stands) rfl
        refine ⟨more.map (Prod.map (· + (1 + line.count '\n')) id), ?_⟩
        have number : 1 + (line ++ '\n' :: front).count '\n' =
            1 + front.count '\n' + (1 + line.count '\n') := by
          rw [List.count_append, List.count_cons_self]
          omega
        rw [numberedTokens_append_newline, numberedTokens_append_newline, read, number,
          List.map_append, List.map_cons, List.append_assoc]
        rfl
      · obtain ⟨more, read⟩ := stands.exists_numberedTokens_of_first_line broken
        rw [List.count_eq_zero.mpr broken]
        exact ⟨more, read⟩

/-- Each token of some code stands somewhere in it, with the tokens before it. -/
theorem exists_around_of_tokens {code : List Char} {found passed further : List (List Char)}
    (tokensOf : TokensOf code found) (member : found = passed ++ token :: further) :
    ∃ before after, code = before ++ token ++ after ∧ token ≠ [] ∧
      (∀ c ∈ token, isSeparator c = false) ∧ (∀ c ∈ before.getLast?, isSeparator c = true) ∧
      (∀ c ∈ after.head?, isSeparator c = true) ∧ tokens before = passed := by
  induction tokensOf generalizing passed with
  | none => simp at member
  | @next blank first rest found separators nonempty solid maximal later inductionHypothesis =>
      have begins (c : Char) (last : c ∈ blank.getLast?) : isSeparator c = true :=
        separators c (List.mem_of_getLast? last)
      have nothing : tokens blank = [] := by
        have skipped := tokens_of_separators separators []
        rwa [List.append_nil] at skipped
      cases passed with
      | nil =>
          cases member
          exact ⟨blank, rest, rfl, nonempty, solid, begins, maximal, nothing⟩
      | cons head passed =>
          cases member
          obtain ⟨before, after, rfl, nonemptyToken, solidToken, beginsToken, endsToken, read⟩ :=
            inductionHypothesis rfl
          -- The rest starts with a separator and so not with the token.
          have between : before ≠ [] := by
            rintro rfl
            obtain ⟨c, token, rfl⟩ := List.exists_cons_of_ne_nil nonemptyToken
            have separates := maximal c rfl
            rw [solidToken c List.mem_cons_self] at separates
            exact Bool.false_ne_true separates
          have ends : ∀ c ∈ before.head?, isSeparator c = true := by
            rw [List.append_assoc, List.head?_append_of_ne_nil before between] at maximal
            exact maximal
          refine ⟨blank ++ first ++ before, after, by simp, nonemptyToken, solidToken, ?_,
            endsToken, ?_⟩
          · rw [List.getLast?_append_of_ne_nil _ between]
            exact beginsToken
          · rw [tokens_around nonempty solid begins ends, nothing, read, List.nil_append]

variable {number : Nat} {passed further : List (Nat × List Char)}

theorem exists_tokenAt_of_unbroken (unbroken : '\n' ∉ text)
    (read : numberedTokens text = passed ++ (number, token) :: further) :
    ∃ before after, TokenAt text before token after ∧ numberedTokens before = passed := by
  have codeOf := codeOf_code text
  obtain ⟨remark, split⟩ := codeOf.front
  have behind : (code text ++ remark).drop (code text).length = remark := List.drop_left
  rw [split] at behind
  rw [numberedTokens_of_unbroken unbroken] at read
  obtain ⟨front, others, cut, rfl, numbered⟩ := List.map_eq_append_iff.mp read
  obtain ⟨token, back, rfl, same, rfl⟩ := List.map_eq_cons_iff.mp numbered
  cases same
  obtain ⟨before, after, parted, nonempty, solid, begins, ends, first⟩ :=
    exists_around_of_tokens (tokens_eq_iff.mp rfl) cut
  have stands : TokenAt text before token (after ++ remark) := by
    refine ⟨?_, nonempty, solid, begins, ?_, ?_⟩
    · rw [← List.append_assoc, ← parted, split]
    · by_cases last : after = []
      · rw [last, List.nil_append]
        rw [← behind]
        exact codeOf.comment.imp_left fun nothing => by simp [nothing]
      · rw [List.head?_append_of_ne_nil after last]
        exact .inl ends
    · intro opened within nonemptyOpened _
      obtain ⟨earlier, border⟩ := within
      have kept : code text = earlier ++ (opened ++ after) := by
        rw [parted, ← border, List.append_assoc]
      have later : text.drop earlier.length = opened ++ (after ++ remark) := by
        conv_lhs => rw [← split, kept]
        simp
      have inside : earlier.length < (code text).length := by
        have some := List.length_pos_of_ne_nil nonemptyOpened
        rw [kept, List.length_append, List.length_append]
        omega
      rw [← later]
      exact codeOf.first _ inside
  have line : '\n' ∉ before := by
    rw [stands.parted] at unbroken
    exact fun newline => unbroken (List.mem_append_left _ (List.mem_append_left _ newline))
  exact ⟨before, after ++ remark, stands, first ▸ stands.numberedTokens_before line⟩

/-- Each token of a text stands somewhere in it, with the tokens before it. -/
theorem exists_tokenAt (read : numberedTokens text = passed ++ (number, token) :: further) :
    ∃ before after, TokenAt text before token after ∧ numberedTokens before = passed := by
  induction length : text.length using Nat.strong_induction_on
      generalizing text number passed further with
  | h n inductionHypothesis =>
      by_cases broken : '\n' ∈ text
      · obtain ⟨line, later, rfl, unbroken⟩ := List.eq_append_cons_of_mem broken
        have shorter : later.length < n := by
          rw [← length]
          simp
          omega
        have behind (middle : List (Nat × List Char))
            (front : passed = numberedTokens line ++ middle)
            (cut : (numberedTokens later).map (Prod.map (· + (1 + line.count '\n')) id) =
              middle ++ (number, token) :: further) :
            ∃ before after, TokenAt (line ++ '\n' :: later) before token after ∧
              numberedTokens before = passed := by
          obtain ⟨own, others, parted, rfl, numbered⟩ := List.map_eq_append_iff.mp cut
          obtain ⟨⟨number, token⟩, rest, rfl, same, rfl⟩ := List.map_eq_cons_iff.mp numbered
          cases same
          obtain ⟨before, after, stands, first⟩ := inductionHypothesis _ shorter parted rfl
          refine ⟨line ++ '\n' :: before, after, tokenAt_newline_iff.mpr stands, ?_⟩
          rw [numberedTokens_append_newline, first, front]
        rw [numberedTokens_append_newline] at read
        rcases List.append_eq_append_iff.mp read with ⟨middle, front, cut⟩ | ⟨middle, cut, others⟩
        · exact behind middle front cut
        · cases middle with
          | nil => exact behind [] (by rw [cut, List.append_nil, List.append_nil]) others.symm
          | cons head middle =>
              cases others
              obtain ⟨before, after, stands, first⟩ := exists_tokenAt_of_unbroken unbroken cut
              have inText := (tokenAt_append_iff (apart_newline line later)).mpr stands
              exact ⟨before, after ++ '\n' :: later, inText, first⟩
      · exact exists_tokenAt_of_unbroken broken read

theorem TokenAt.apart (stands : TokenAt text before token after) :
    Apart before (token ++ after) := .inl stands.begins

theorem TokenAt.parted_before (stands : TokenAt text before token after) :
    text = before ++ (token ++ after) := by
  rw [stands.parted, List.append_assoc]

/-- What stands before a place of a text stands in the text before it. -/
theorem TokenAt.exists_before (stands : TokenAt text before token after)
    (first : TokenAt text earlier other rest) (sooner : earlier.length < before.length) :
    ∃ middle, TokenAt before earlier other middle := by
  have same : earlier ++ (other ++ rest) = before ++ (token ++ after) :=
    first.parted_before.symm.trans stands.parted_before
  rcases List.append_eq_append_iff.mp same with ⟨between, rfl, cut⟩ | ⟨between, rfl, -⟩
  · rcases List.append_eq_append_iff.mp cut with ⟨middle, rfl, rfl⟩ | ⟨middle, rfl, -⟩
    · refine ⟨middle, (tokenAt_append_iff stands.apart).mp ?_⟩
      rw [← stands.parted_before]
      exact first
    · rw [List.length_append] at sooner
      have some : between ≠ [] := List.length_pos_iff.mp (by omega)
      have solid (c : Char) (member : c ∈ between) : isSeparator c = false :=
        first.solid c (List.mem_append_left middle member)
      exact absurd stands.begins (not_stops_of_solid some solid)
  · rw [List.length_append] at sooner
    omega

theorem TokenAt.of_before (stands : TokenAt text before token after)
    (first : TokenAt before earlier other rest) :
    TokenAt text earlier other (rest ++ (token ++ after)) ∧ earlier.length < before.length := by
  refine ⟨?_, ?_⟩
  · rw [stands.parted_before]
    exact (tokenAt_append_iff stands.apart).mpr first
  · have some := List.length_pos_of_ne_nil first.nonempty
    rw [first.parted, List.length_append, List.length_append]
    omega

/-- The tokens that stand before a place are those that are read before it. -/
theorem TokenAt.forall_earlier_iff (stands : TokenAt text before token after)
    {holds : List Char → Prop} :
    (∀ earlier other rest, TokenAt text earlier other rest → earlier.length < before.length →
      holds other) ↔ ∀ numbered ∈ numberedTokens before, holds numbered.2 := by
  refine ⟨fun all numbered member => ?_, fun all earlier other rest first sooner => ?_⟩
  · obtain ⟨passed, further, read⟩ := List.append_of_mem member
    obtain ⟨earlier, rest, first, -⟩ := exists_tokenAt read
    obtain ⟨inText, sooner⟩ := stands.of_before first
    exact all _ _ _ inText sooner
  · obtain ⟨middle, within⟩ := stands.exists_before first sooner
    obtain ⟨more, read⟩ := within.exists_numberedTokens
    have member : (1 + earlier.count '\n', other) ∈ numberedTokens before := by
      rw [read]
      exact List.mem_append_right _ List.mem_cons_self
    exact all _ member

end WordHart.Image
