import EventFinder.Proofs.Location.Accounting
import EventFinder.Proofs.Pattern.Rendering

/-!
# Placeholders side by side

Placeholders without a literal between them all look for the literal behind their run. The first one
takes the text up to it (`RunEnds`), and one would expect that nothing is left for the others. This
holds for all of them but one: the first list placeholder among the others looks for the last
occurrence of the literal and takes the text up to there, its beginning included, if the first
placeholder has stopped at an earlier one (`handOver`, `Pattern.capture_run_hands_over`).

The others start where the first one ended, so that they see a text that the literal stands at the
start of, or that is a beginning of it (`exists_captures_of_run_literal`).
-/

set_option autoImplicit false

namespace EventFinder

/-- The captures of the placeholders behind the first one of a run, where a text is left to take.
The first list placeholder takes it, and all other ones are empty. -/
def handOver : Text → List Placeholder → List Capture
  | _, [] => []
  | taken, p :: others =>
    if p.isGreedy then (p, taken) :: handOver [] others else (p, []) :: handOver taken others

/-- The text up to the last occurrence of the literal that the tokens start with. It is empty if
there is no such literal or if it does not occur. -/
def upToLast : List Token → Text → Text
  | .literal literal :: _, text => ((Text.lastOccurrence literal text).map Prod.fst).getD []
  | _, _ => []

/-- The first placeholder of a run ends at the literal that the tokens behind the run start with, by
its own boundary rule, or in front of the longest cut if the literal is missing. Without a literal
it leaves nothing. -/
def RunEnds (greedy : Bool) (value rest : Text) : List Token → Prop
  | [] => rest = []
  | .literal literal :: _ =>
    literal <+: rest ∧ Text.BoundaryRule greedy literal value rest ∨
      ¬ literal <:+: value ++ rest ∧ Text.LongestCut literal (value ++ rest) rest
  | .field _ :: _ => False

/-- The literal that the tokens start with occurs in the text, and not at its start only. -/
def Recurs (tokens : List Token) (text : Text) : Prop :=
  ∃ literal tail offset, tokens = .literal literal :: tail ∧ 0 < offset ∧
    Text.OccursAt literal text offset

/-- The value is the text in front of the boundary and the rest is the text from there on. Without a
boundary the value is all the text. -/
def EndsAtBoundary (greedy : Bool) (literal value rest : Text) : Prop :=
  Text.boundary greedy literal (value ++ rest) = some (value, rest) ∨
    Text.boundary greedy literal (value ++ rest) = none ∧ rest = []

/-! ## What is handed over -/

/-- Where no text is left to take, all other placeholders are empty. -/
theorem handOver_nil (others : List Placeholder) :
    handOver [] others = others.map fun other => (other, []) := by
  induction others with
  | nil => rfl
  | cons p others ih => simp [handOver, ih]

/-- A later placeholder captures something exactly if there is text to take and one of them is a
list. -/
theorem exists_taken_iff {taken : Text} {others : List Placeholder} :
    (∃ later ∈ handOver taken others, later.2 ≠ []) ↔
      taken ≠ [] ∧ ∃ other ∈ others, other.isGreedy = true := by
  induction others with
  | nil => simp [handOver]
  | cons p others ih =>
    by_cases hgreedy : p.isGreedy
    · simp [handOver, hgreedy, handOver_nil]
    · simp [handOver, hgreedy, ih]

/-- There is text in front of the last occurrence exactly if the literal occurs behind the start. -/
theorem upToLast_ne_nil_iff {tokens : List Token} {text : Text} :
    upToLast tokens text ≠ [] ↔ Recurs tokens text := by
  rcases tokens with _ | ⟨literal | p, tail⟩
  · simp [upToLast, Recurs]
  · have hrecurs : Recurs (.literal literal :: tail) text ↔
        ∃ offset, 0 < offset ∧ Text.OccursAt literal text offset := by
      simp [Recurs]
    rw [hrecurs]
    cases hlast : Text.lastOccurrence literal text with
    | none =>
      have hmissing := Text.lastOccurrence_eq_none_iff.1 hlast
      have hnone : ¬ ∃ offset, 0 < offset ∧ Text.OccursAt literal text offset :=
        fun ⟨offset, _, hoffset⟩ =>
          hmissing (Text.isInfix_iff_exists_occursAt.2 ⟨offset, hoffset⟩)
      simp [upToLast, hlast, hnone]
    | some parts =>
      obtain ⟨before, rest⟩ := parts
      obtain ⟨rfl, hbegins, honly⟩ := Text.lastOccurrence_eq_some_iff.1 hlast
      simp only [upToLast, hlast, Option.map_some, Option.getD_some]
      constructor
      · intro hne
        exact ⟨before.length, List.length_pos_iff.2 hne, Text.occursAt_append_length.2 hbegins⟩
      · rintro ⟨offset, hpos, hoffset⟩ rfl
        exact absurd (honly offset hoffset) hpos.ne'
  · simp [upToLast, Recurs]

/-- A literal that occurs at most at the start leaves nothing to take. -/
theorem upToLast_eq_nil {literal text : Text} {tail : List Token}
    (h : ∀ offset, Text.OccursAt literal text offset → offset = 0) :
    upToLast (.literal literal :: tail) text = [] := by
  by_contra hne
  obtain ⟨_, _, offset, heq, hpos, hoffset⟩ := upToLast_ne_nil_iff.1 hne
  cases heq
  exact absurd (h offset hoffset) hpos.ne'

/-- A literal that is not in a text is not in the end of it. -/
theorem not_occursAt_of_not_isInfix {literal value rest : Text} (h : ¬ literal <:+: value ++ rest)
    (offset : Nat) : ¬ Text.OccursAt literal rest offset := fun hoffset =>
  h ((Text.isInfix_iff_exists_occursAt.2 ⟨offset, hoffset⟩).trans
    (List.suffix_append value rest).isInfix)

/-- A list placeholder at the start of a run leaves one occurrence of the literal at most. -/
theorem RunEnds.not_recurs {value rest : Text} {after : List Token}
    (h : RunEnds true value rest after) : ¬ Recurs after rest := by
  rintro ⟨literal, tail, offset, rfl, hpos, hoffset⟩
  obtain ⟨-, hrule⟩ | ⟨hmissing, -⟩ := h
  · exact absurd (Text.boundaryRule_greedy_iff.1 hrule offset (Nat.lt_succ_of_le hoffset.1) hoffset)
      hpos.ne'
  · exact not_occursAt_of_not_isInfix hmissing offset hoffset

/-! ## One placeholder -/

/-- What a placeholder captures and leaves, if the match succeeds. -/
theorem capture_field_eq_ok {p : Placeholder} {tail : List Token} {remaining : Text}
    {captures : List Capture} (h : capture (.field p :: tail) remaining = .ok captures) :
    ∃ value rest others, captures = (p, value) :: others ∧ remaining = value ++ rest ∧
      capture tail rest = .ok others ∧ (nextLiteral? tail = none → rest = []) ∧
      ∀ literal behind, nextLiteral? tail = some (literal, behind) →
        EndsAtBoundary p.isGreedy literal value rest := by
  rw [capture.eq_4] at h
  split at h
  · rename_i hnext
    obtain ⟨others, hothers, rfl⟩ := map_eq_ok_iff.1 h
    refine ⟨remaining, [], others, rfl, (List.append_nil _).symm, hothers, fun _ => rfl, ?_⟩
    simp [hnext]
  · rename_i literal behind hnext
    split at h
    · rename_i value rest hboundary
      obtain ⟨others, hothers, rfl⟩ := map_eq_ok_iff.1 h
      obtain rfl := Text.boundary_append hboundary
      refine ⟨value, rest, others, rfl, rfl, hothers, by simp [hnext], ?_⟩
      rintro _ _ heq
      cases hnext.symm.trans heq
      exact .inl hboundary
    · rename_i hboundary
      split at h
      · obtain ⟨others, hothers, rfl⟩ := map_eq_ok_iff.1 h
        refine ⟨remaining, [], others, rfl, (List.append_nil _).symm, hothers, fun _ => rfl, ?_⟩
        rintro _ _ heq
        cases hnext.symm.trans heq
        exact .inr ⟨(List.append_nil remaining).symm ▸ hboundary, rfl⟩
      · cases h

/-- The next literal behind a run is the next one behind its placeholders. -/
theorem nextLiteral?_run (others : List Placeholder) (after : List Token) :
    nextLiteral? (others.map Token.field ++ after) = nextLiteral? after := by
  induction others with
  | nil => rfl
  | cons p others ih => exact ih

/-! ## Where a capture ends -/

/-- A capture of a text with the literal in it ends in front of the literal. -/
theorem EndsAtBoundary.of_isInfix {greedy : Bool} {literal value rest : Text}
    (hliteral : literal ≠ []) (hin : literal <:+: value ++ rest)
    (h : EndsAtBoundary greedy literal value rest) :
    literal <+: rest ∧ Text.BoundaryRule greedy literal value rest := by
  obtain hsome | ⟨hnone, -⟩ := h
  · exact (Text.boundary_eq_some hsome).2.resolve_right fun hmissing => hmissing.1 hin
  · exact absurd hin ((Text.boundary_eq_none_iff hliteral).1 hnone).1

/-- A capture of a text without the literal ends in front of the longest cut. -/
theorem EndsAtBoundary.of_not_isInfix {greedy : Bool} {literal value rest : Text}
    (hliteral : literal ≠ []) (hmissing : ¬ literal <:+: value ++ rest)
    (h : EndsAtBoundary greedy literal value rest) :
    Text.LongestCut literal (value ++ rest) rest := by
  obtain hsome | ⟨hnone, rfl⟩ := h
  · obtain ⟨hbegins, -⟩ | ⟨-, -, hlongest⟩ := (Text.boundary_eq_some hsome).2
    · exact absurd (hbegins.isInfix.trans (List.suffix_append value rest).isInfix) hmissing
    · exact hlongest
  · exact ((Text.boundary_eq_none_iff hliteral).1 hnone).2

/-- A capture of a beginning of the literal is empty. -/
theorem EndsAtBoundary.eq_nil_of_properPrefix {greedy : Bool} {literal value rest : Text}
    (hliteral : literal ≠ []) (hproper : Text.ProperPrefix (value ++ rest) literal)
    (h : EndsAtBoundary greedy literal value rest) : value = [] := by
  have hmissing : ¬ literal <:+: value ++ rest :=
    fun hin => absurd hin.length_le (Nat.not_le.2 hproper.length_lt)
  have hle := (h.of_not_isInfix hliteral hmissing).longest _ List.suffix_rfl hproper
  simp only [List.length_append] at hle
  exact List.length_eq_zero_iff.1 (by omega)

/-- A capture that ends at the first occurrence is empty where the literal stands at the start. -/
theorem eq_nil_of_boundaryRule {literal value rest : Text} (hbegins : literal <+: value ++ rest)
    (hrest : literal <+: rest) (h : Text.BoundaryRule false literal value rest) : value = [] := by
  have hstart : Text.BoundaryRule false literal [] (value ++ rest) := by simp [Text.BoundaryRule]
  have hfirst := Text.boundary_of_rule hbegins hstart
  rw [List.nil_append, Text.boundary_of_rule hrest h] at hfirst
  cases value with
  | nil => rfl
  | cons c value => simp at hfirst

/-! ## The placeholders behind the first one -/

/-- All placeholders are empty if none of them takes anything of the text. -/
theorem exists_captures_of_run_empty {others : List Placeholder} {after : List Token}
    {remaining : Text} {captures : List Capture}
    (hempty : ∀ greedy value rest, remaining = value ++ rest →
      (∀ literal behind, nextLiteral? after = some (literal, behind) →
        EndsAtBoundary greedy literal value rest) → value = [])
    (h : capture (others.map Token.field ++ after) remaining = .ok captures) :
    ∃ behind, captures = handOver [] others ++ behind := by
  induction others generalizing captures with
  | nil => exact ⟨captures, rfl⟩
  | cons p others ih =>
    obtain ⟨value, rest, later, rfl, rfl, hlater, -, hends⟩ := capture_field_eq_ok h
    obtain rfl := hempty p.isGreedy value rest rfl fun literal behind hnext =>
      hends literal behind ((nextLiteral?_run others after).trans hnext)
    obtain ⟨behind, rfl⟩ := ih hlater
    exact ⟨behind, by simp [handOver]⟩

/-- Where the literal stands at the start, the first list placeholder takes the text up to its last
occurrence and leaves one occurrence to the others. -/
theorem exists_captures_of_run_literal {others : List Placeholder} {tail : List Token}
    {literal remaining : Text} {captures : List Capture} (hliteral : literal ≠ [])
    (hbegins : literal <+: remaining)
    (h : capture (others.map Token.field ++ .literal literal :: tail) remaining = .ok captures) :
    ∃ behind, captures =
      handOver (upToLast (.literal literal :: tail) remaining) others ++ behind := by
  induction others generalizing remaining captures with
  | nil => exact ⟨captures, rfl⟩
  | cons p others ih =>
    obtain ⟨value, rest, later, rfl, rfl, hlater, -, hboundary⟩ := capture_field_eq_ok h
    have hends := hboundary _ _ (nextLiteral?_run others (.literal literal :: tail))
    obtain ⟨hrest, hrule⟩ := hends.of_isInfix hliteral hbegins.isInfix
    obtain ⟨behind, rfl⟩ := ih hrest hlater
    refine ⟨behind, ?_⟩
    cases hgreedy : p.isGreedy with
    | false =>
      rw [hgreedy] at hrule
      obtain rfl := eq_nil_of_boundaryRule hbegins hrest hrule
      simp [handOver, hgreedy]
    | true =>
      rw [hgreedy] at hrule
      have honly : ∀ offset, Text.OccursAt literal rest offset → offset = 0 := by
        simpa [Text.BoundaryRule] using hrule
      have hlast : Text.lastOccurrence literal (value ++ rest) = some (value, rest) :=
        Text.lastOccurrence_eq_some_iff.2 ⟨rfl, hrest, honly⟩
      have htaken : upToLast (.literal literal :: tail) (value ++ rest) = value := by
        simp [upToLast, hlast]
      simp [handOver, hgreedy, upToLast_eq_nil honly, htaken]

/-! ## A run and what is in front of it -/

/-- What a run captures that the tokens start with. -/
theorem exists_captures_of_run {first : Placeholder} {others : List Placeholder}
    {after : List Token} {remaining : Text} {captures : List Capture}
    (hliteral : ∀ text, Token.literal text ∈ after → text ≠ []) (hafter : StartsLiterally after)
    (h : capture (.field first :: (others.map Token.field ++ after)) remaining = .ok captures) :
    ∃ value rest behind,
      captures = (first, value) :: (handOver (upToLast after rest) others ++ behind) ∧
      remaining = value ++ rest ∧ RunEnds first.isGreedy value rest after := by
  obtain ⟨value, rest, later, rfl, rfl, hlater, hnil, hboundary⟩ := capture_field_eq_ok h
  rcases after with _ | ⟨literal | p, tail⟩
  · obtain rfl := hnil (nextLiteral?_run others [])
    obtain ⟨behind, rfl⟩ := exists_captures_of_run_empty
      (fun _ _ _ hnone _ => (List.append_eq_nil_iff.1 hnone.symm).1) hlater
    exact ⟨value, [], behind, rfl, rfl, rfl⟩
  · have hne : literal ≠ [] := hliteral literal List.mem_cons_self
    have hends := hboundary _ _ (nextLiteral?_run others (.literal literal :: tail))
    by_cases hin : literal <:+: value ++ rest
    · have hfound := hends.of_isInfix hne hin
      obtain ⟨behind, rfl⟩ := exists_captures_of_run_literal hne hfound.1 hlater
      exact ⟨value, rest, behind, rfl, rfl, .inl hfound⟩
    · have hlongest := hends.of_not_isInfix hne hin
      obtain ⟨behind, rfl⟩ := exists_captures_of_run_empty
        (fun _ _ _ hcut hnext =>
          (hnext _ _ rfl).eq_nil_of_properPrefix hne (hcut ▸ hlongest.isProper)) hlater
      have htaken : upToLast (.literal literal :: tail) rest = [] :=
        upToLast_eq_nil fun offset hoffset =>
          absurd hoffset (not_occursAt_of_not_isInfix hin offset)
      exact ⟨value, rest, behind, by rw [htaken], rfl, .inr ⟨hin, hlongest⟩⟩
  · exact absurd (hafter (.field p) rfl) (by simp [Token.isField])

/-- The captures of tokens with a run among them. The tokens in front of it are written out in the
text in front of it, or the location stops there already, and then the run is empty. -/
def CapturesRun (before : List Token) (first : Placeholder) (others : List Placeholder)
    (after : List Token) (location : Text) (captures : List Capture) : Prop :=
  ∃ ahead spent value rest behind,
    captures = ahead ++ (first, value) :: (handOver (upToLast after rest) others ++ behind) ∧
      ahead.map Prod.fst = before.filterMap Token.placeholder? ∧
      location = spent ++ (value ++ rest) ∧ RunEnds first.isGreedy value rest after ∧
      (WritesOut before spent ahead ∨
        value = [] ∧ rest = [] ∧
          StopsInside (before ++ .field first :: (others.map Token.field ++ after)) location
            captures)

/-- One token more in front of a run, with its text and its capture, belongs to what is ahead of
it. -/
theorem CapturesRun.cons {before : List Token} {first : Placeholder} {others : List Placeholder}
    {after : List Token} {location : Text} {captures : List Capture}
    (h : CapturesRun before first others after location captures) (token : FilledToken) :
    CapturesRun (token.token :: before) first others after (token.text ++ location)
      (token.capture?.toList ++ captures) := by
  obtain ⟨ahead, spent, value, rest, behind, rfl, hnames, rfl, hends, hbefore⟩ := h
  refine ⟨token.capture?.toList ++ ahead, token.text ++ spent, value, rest, behind,
    (List.append_assoc _ _ _).symm, ?_, (List.append_assoc _ _ _).symm, hends, ?_⟩
  · cases token <;> simp [hnames, Token.placeholder?, List.filterMap_cons]
  obtain hwritten | ⟨hvalue, hrest, hstops⟩ := hbefore
  · exact .inl (hwritten.cons token)
  · exact .inr ⟨hvalue, hrest, hstops.cons token⟩

/-- A literal is passed, or the location stops in it and every placeholder behind it is empty. -/
theorem capture_literal_eq_ok {literal remaining : Text} {tail : List Token}
    {captures : List Capture} (h : capture (.literal literal :: tail) remaining = .ok captures) :
    (∃ rest, remaining = literal ++ rest ∧ capture tail rest = .ok captures) ∨
      (∀ token ∈ tail, token.isField = true) ∧ captures = emptyCaptures tail ∧
        StopsInside (.literal literal :: tail) remaining captures := by
  rw [capture] at h
  split at h
  · rename_i rest hrest
    exact .inl ⟨rest, (List.isPrefixOf?_eq_some_iff_append_eq.1 hrest).symm, h⟩
  · rename_i hmissing
    split at h
    · rename_i hoptional
      cases h
      obtain ⟨htail, hbegins⟩ := (Bool.and_eq_true _ _).mp hoptional
      exact .inr ⟨(isOptionalTail_eq_true_iff.1 htail).2, rfl,
        stopsInside_nil hmissing htail hbegins⟩
    · cases h

/-- A location that stops in front of a run leaves all of it empty. -/
theorem capturesRun_of_stopsInside {literal : Text} {before after tail : List Token}
    {first : Placeholder} {others : List Placeholder} {location : Text}
    (htail : tail = before ++ .field first :: (others.map Token.field ++ after))
    (hafter : StartsLiterally after) (hfields : ∀ token ∈ tail, token.isField = true)
    (h : StopsInside (.literal literal :: tail) location (emptyCaptures tail)) :
    CapturesRun (.literal literal :: before) first others after location (emptyCaptures tail) := by
  subst htail
  have hnil : after = [] := by
    rcases after with _ | ⟨token, tail⟩
    · rfl
    · have hfield := hfields token (by simp)
      have hliteral := hafter token rfl
      rw [hfield] at hliteral
      cases hliteral
  subst hnil
  refine ⟨emptyCaptures before, location, [], [], [], ?_, ?_, by simp, rfl, .inr ⟨rfl, rfl, h⟩⟩
  · simp [emptyCaptures, upToLast, handOver_nil, Token.placeholder?, List.filterMap_append,
      Function.comp_def]
  · simp [emptyCaptures, Token.placeholder?, List.filterMap_cons, Function.comp_def]

/-- A match that succeeds captures a run in this way, whatever is in front of it. -/
theorem capturesRun_of_capture {before after : List Token} {first : Placeholder}
    {others : List Placeholder} {location : Text} {captures : List Capture}
    (hliteral : ∀ text, Token.literal text ∈ after → text ≠ []) (hafter : StartsLiterally after)
    (h : capture (before ++ .field first :: (others.map Token.field ++ after)) location =
      .ok captures) :
    CapturesRun before first others after location captures := by
  induction before generalizing location captures with
  | nil =>
    obtain ⟨value, rest, behind, rfl, rfl, hends⟩ := exists_captures_of_run hliteral hafter h
    exact ⟨[], [], value, rest, behind, rfl, rfl, rfl, hends, .inl ⟨[], rfl, rfl, rfl⟩⟩
  | cons token before ih =>
    cases token with
    | literal literal =>
      obtain ⟨rest, rfl, hrest⟩ | ⟨hfields, rfl, hstops⟩ := capture_literal_eq_ok h
      · exact (ih hrest).cons (.literal literal)
      · exact capturesRun_of_stopsInside rfl hafter hfields hstops
    | field p =>
      obtain ⟨value, rest, later, rfl, rfl, hlater, -⟩ := capture_field_eq_ok h
      exact (ih hlater).cons (.field p value)

namespace Pattern

/-- The first placeholder of a run ends at the literal behind the run. Of the other ones the first
list placeholder takes the text up to the last occurrence of that literal, and all others are empty.
So they capture text exactly if the first placeholder is no list placeholder, there is one among the
others, and the literal occurs more than once. -/
theorem capture_run_hands_over {source : Text} {pattern : Pattern}
    (hcompile : compileLenient source = .ok pattern) {before after : List Token}
    {first : Placeholder} {others : List Placeholder}
    (htokens : pattern.tokens = before ++ .field first :: (others.map Token.field ++ after))
    (hafter : StartsLiterally after) {location : Text} {captures : List Capture}
    (hcapture : capture pattern.tokens location = .ok captures) :
    ∃ ahead spent value rest behind,
      captures = ahead ++ (first, value) :: (handOver (upToLast after rest) others ++ behind) ∧
        ahead.map Prod.fst = before.filterMap Token.placeholder? ∧
        location = spent ++ (value ++ rest) ∧ RunEnds first.isGreedy value rest after ∧
        (WritesOut before spent ahead ∨
          value = [] ∧ rest = [] ∧ StopsInside pattern.tokens location captures) ∧
        ((∃ later ∈ handOver (upToLast after rest) others, later.2 ≠ []) ↔
          first.isGreedy = false ∧ (∃ other ∈ others, other.isGreedy = true) ∧
            Recurs after rest) := by
  obtain ⟨-, hnormal, -⟩ := compileLenient_eq_ok_iff.1 hcompile
  have hliteral : ∀ text, Token.literal text ∈ after → text ≠ [] := by
    intro text htext
    refine hnormal.literal_ne_nil text ?_
    rw [htokens]
    simp [htext]
  rw [htokens] at hcapture ⊢
  obtain ⟨ahead, spent, value, rest, behind, hcaptures, hnames, hlocation, hends, hbefore⟩ :=
    capturesRun_of_capture hliteral hafter hcapture
  refine ⟨ahead, spent, value, rest, behind, hcaptures, hnames, hlocation, hends, hbefore, ?_⟩
  rw [exists_taken_iff, upToLast_ne_nil_iff]
  constructor
  · rintro ⟨hrecurs, hlist⟩
    refine ⟨?_, hlist, hrecurs⟩
    by_contra hgreedy
    rw [Bool.not_eq_false] at hgreedy
    exact (hgreedy ▸ hends).not_recurs hrecurs
  · rintro ⟨-, hlist, hrecurs⟩
    exact ⟨hrecurs, hlist⟩

/-- Behind a day that is no list, the first list placeholder of the run takes what the venue has
left up to the last separator, and the second one takes nothing. -/
theorem capture_run_hands_over_to_performers :
    let pattern : Pattern := ⟨"%V%d%P%p - %y".toList,
      [.field .venue, .field .day, .field .performers, .field .promoters, .literal " - ".toList,
        .field .year]⟩
    let others : List Placeholder := [.day, .performers, .promoters]
    let after : List Token := [.literal " - ".toList, .field .year]
    let rest : Text := " - b - 2024".toList
    compileLenient pattern.source = .ok pattern ∧
      pattern.tokens = [] ++ .field .venue :: (others.map Token.field ++ after) ∧
      StartsLiterally after ∧
      (∃ behind, capture pattern.tokens ("a".toList ++ rest) =
        .ok ((.venue, "a".toList) :: (handOver (upToLast after rest) others ++ behind))) ∧
      RunEnds false "a".toList rest after ∧
      ∃ later ∈ handOver (upToLast after rest) others, later.2 ≠ [] := by
  intro pattern others after rest
  have hcompile : compileLenient pattern.source = .ok pattern := by decide +kernel
  have hafter : StartsLiterally after := by simp [after, StartsLiterally, Token.isField]
  have hcapture : capture pattern.tokens ("a".toList ++ rest) =
      .ok [(.venue, "a".toList), (.day, []), (.performers, " - b".toList), (.promoters, []),
        (.year, "2024".toList)] := by
    decide +kernel
  have htokens : pattern.tokens = [] ++ .field .venue :: (others.map Token.field ++ after) := rfl
  obtain ⟨ahead, spent, value, remaining, behind, hcaptures, hnames, hlocation, hends, hbefore,
    htaken⟩ := capture_run_hands_over hcompile htokens hafter hcapture
  obtain rfl := List.map_eq_nil_iff.1 hnames
  obtain rfl : "a".toList = value := congrArg Prod.snd (List.cons.inj hcaptures).1
  obtain ⟨filled, hfilled, -, rfl⟩ :=
    hbefore.resolve_right fun hstops => absurd hstops.1 (by decide)
  obtain rfl := List.map_eq_nil_iff.1 hfilled
  obtain rfl : rest = remaining := List.append_cancel_left hlocation
  have hrecurs : Recurs after rest := ⟨_, _, 4, rfl, by decide, by decide⟩
  exact ⟨hcompile, htokens, hafter, ⟨behind, hcapture.trans (congrArg Except.ok hcaptures)⟩, hends,
    htaken.2 ⟨rfl, ⟨.performers, by decide, rfl⟩, hrecurs⟩⟩

/-- A list placeholder right behind the venue is not empty. -/
theorem capture_of_venue_before_performers :
    let tokens : List Token :=
      [.field .venue, .field .performers, .literal " - ".toList, .field .year]
    compileLenient "%V%P - %y".toList = .ok ⟨"%V%P - %y".toList, tokens⟩ ∧
      capture tokens "a - b - 2024".toList =
        .ok [(.venue, "a".toList), (.performers, " - b".toList), (.year, "2024".toList)] ∧
      " - b".toList ≠ [] := by
  decide +kernel

end Pattern

end EventFinder
