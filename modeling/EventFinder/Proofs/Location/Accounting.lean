import EventFinder.Proofs.Location.Filling
import EventFinder.Proofs.Text.BoundaryOffsets

/-!
# No text is lost

Whatever the tokens are, placeholders side by side included, a successful match accounts for every
character of the location: the location is the pattern with the captured texts in it (`WritesOut`),
or it stops inside a literal with nothing but placeholders behind it, which are then empty
(`StopsInside`). Every step of the matcher puts one token in front of what is accounted for already
(`accounts_of_capture`).

`captureInPlace` is the matcher as one writes it who has the location in memory as bytes and splits
it at offsets. All of its splits are between characters, and it captures the same texts
(`captureInPlace_eq`).
-/

set_option autoImplicit false

namespace EventFinder

/-- The location is the pattern with the captured texts in it. -/
def WritesOut (tokens : List Token) (location : Text) (captures : List Capture) : Prop :=
  ∃ filled : List FilledToken,
    filled.map FilledToken.token = tokens ∧ filled.filterMap FilledToken.capture? = captures ∧
      location = filledText filled

/-- The location is the pattern with the captured texts in it up to a literal of which it has only a
beginning. Behind this literal there are only placeholders, one at least, and all of them are empty.
-/
def StopsInside (tokens : List Token) (location : Text) (captures : List Capture) : Prop :=
  ∃ (filled : List FilledToken) (literal : Text) (tail : List Token) (cut : Text),
    tokens = filled.map FilledToken.token ++ .literal literal :: tail ∧
      tail ≠ [] ∧ (∀ token ∈ tail, token.isField = true) ∧
      captures = filled.filterMap FilledToken.capture? ++ emptyCaptures tail ∧
      location = filledText filled ++ cut ∧ Text.ProperPrefix cut literal

/-- Every character of the location is accounted for. -/
def AccountsFor (tokens : List Token) (location : Text) (captures : List Capture) : Prop :=
  WritesOut tokens location captures ∨ StopsInside tokens location captures

/-! ## One more token in front -/

/-- The capture of the first token, if it is a placeholder, stands before those of the others. -/
theorem filterMap_capture?_cons (first : FilledToken) (filled : List FilledToken) :
    (first :: filled).filterMap FilledToken.capture? =
      first.capture?.toList ++ filled.filterMap FilledToken.capture? := by
  cases first <;> simp [List.filterMap_cons]

/-- The text of the first token stands before that of the others. -/
theorem filledText_cons (first : FilledToken) (filled : List FilledToken) :
    filledText (first :: filled) = first.text ++ filledText filled :=
  rfl

/-- One token more in front, with its text and its capture, is written out as well. -/
theorem WritesOut.cons {tokens : List Token} {location : Text} {captures : List Capture}
    (h : WritesOut tokens location captures) (first : FilledToken) :
    WritesOut (first.token :: tokens) (first.text ++ location)
      (first.capture?.toList ++ captures) := by
  obtain ⟨filled, rfl, rfl, rfl⟩ := h
  exact ⟨first :: filled, rfl, filterMap_capture?_cons first filled,
    (filledText_cons first filled).symm⟩

/-- One token more in front, with its text and its capture, changes nothing about where the
location stops. -/
theorem StopsInside.cons {tokens : List Token} {location : Text} {captures : List Capture}
    (h : StopsInside tokens location captures) (first : FilledToken) :
    StopsInside (first.token :: tokens) (first.text ++ location)
      (first.capture?.toList ++ captures) := by
  obtain ⟨filled, literal, tail, cut, rfl, hne, htail, rfl, rfl, hcut⟩ := h
  refine ⟨first :: filled, literal, tail, cut, rfl, hne, htail, ?_, ?_, hcut⟩
  · rw [filterMap_capture?_cons, List.append_assoc]
  · rw [filledText_cons, List.append_assoc]

/-- One token more in front, with its text and its capture, is accounted for as well. -/
theorem AccountsFor.cons {tokens : List Token} {location : Text} {captures : List Capture}
    (h : AccountsFor tokens location captures) (first : FilledToken) :
    AccountsFor (first.token :: tokens) (first.text ++ location)
      (first.capture?.toList ++ captures) :=
  h.imp (fun h => h.cons first) fun h => h.cons first

/-- Only tokens that are all placeholders may be missing, and at least one. -/
theorem isOptionalTail_eq_true_iff {tokens : List Token} :
    isOptionalTail tokens = true ↔ tokens ≠ [] ∧ ∀ token ∈ tokens, token.isField = true := by
  simp [isOptionalTail]

/-- A location that is only a beginning of the literal in front of such tokens stops inside it. -/
theorem stopsInside_nil {literal remaining : Text} {tail : List Token}
    (hmissing : Text.after? literal remaining = none) (htail : isOptionalTail tail = true)
    (hbegins : remaining.isPrefixOf literal = true) :
    StopsInside (.literal literal :: tail) remaining (emptyCaptures tail) := by
  obtain ⟨hne, hfields⟩ := isOptionalTail_eq_true_iff.1 htail
  have hproper : Text.ProperPrefix remaining literal := by
    refine ⟨List.isPrefixOf_iff_prefix.1 hbegins, ?_⟩
    rintro rfl
    have hsome : Text.after? remaining remaining = some [] := by
      simp
    rw [hsome] at hmissing
    cases hmissing
  exact ⟨[], literal, tail, remaining, rfl, hne, hfields, rfl, rfl, hproper⟩

/-- A successful match accounts for the location, whatever the tokens are. -/
theorem accounts_of_capture {tokens : List Token} {location : Text} {captures : List Capture}
    (h : capture tokens location = .ok captures) : AccountsFor tokens location captures := by
  fun_induction capture tokens location generalizing captures with
  | case1 =>
    cases h
    exact .inl ⟨[], rfl, rfl, rfl⟩
  | case2 => cases h
  | case3 literal tail remaining rest hrest ih =>
    rw [← List.isPrefixOf?_eq_some_iff_append_eq.1 hrest]
    exact (ih h).cons (.literal literal)
  | case4 literal tail remaining hmissing hoptional =>
    cases h
    obtain ⟨htail, hbegins⟩ := (Bool.and_eq_true _ _).mp hoptional
    exact .inr (stopsInside_nil hmissing htail hbegins)
  | case5 => cases h
  | case6 placeholder tail remaining hnext ih =>
    obtain ⟨others, hothers, rfl⟩ := map_eq_ok_iff.1 h
    simpa [FilledToken.text] using (ih hothers).cons (.field placeholder remaining)
  | case7 placeholder tail remaining literal behind hnext value rest hboundary ih =>
    obtain ⟨others, hothers, rfl⟩ := map_eq_ok_iff.1 h
    rw [← Text.boundary_append hboundary]
    exact (ih hothers).cons (.field placeholder value)
  | case8 placeholder tail remaining literal behind hnext hboundary hbehind ih =>
    obtain ⟨others, hothers, rfl⟩ := map_eq_ok_iff.1 h
    simpa [FilledToken.text] using (ih hothers).cons (.field placeholder remaining)
  | case9 => cases h

/-- What accounts for a location has one capture for each placeholder, in the order of the tokens.
-/
theorem AccountsFor.placeholders {tokens : List Token} {location : Text} {captures : List Capture}
    (h : AccountsFor tokens location captures) :
    captures.map Prod.fst = tokens.filterMap Token.placeholder? := by
  have hfilled : ∀ filled : List FilledToken,
      (filled.filterMap FilledToken.capture?).map Prod.fst =
        (filled.map FilledToken.token).filterMap Token.placeholder? := by
    intro filled
    rw [List.map_filterMap, List.filterMap_map]
    congr 1
    funext token
    cases token <;> rfl
  obtain ⟨filled, rfl, rfl, rfl⟩ | ⟨filled, literal, tail, cut, rfl, -, -, rfl, rfl, -⟩ := h
  · exact hfilled filled
  · simp [hfilled, emptyCaptures, Token.placeholder?, List.filterMap_cons, Function.comp_def]

/-! ## Matching in place -/

/-- The captures of the tokens in a location that is split at offsets. There is no result if a split
would be inside a character or a slice would end inside one. -/
def captureInPlace : List Token → Text → Option (Except MatchError (List Capture))
  | [], [] => some (.ok [])
  | [], remaining => some (.error (.trailingText remaining))
  | .literal literal :: tail, remaining =>
    match Text.after? literal remaining with
    | some rest => captureInPlace tail rest
    | none =>
      if isOptionalTail tail && remaining.isPrefixOf literal then some (.ok (emptyCaptures tail))
      else some (.error (.literalMismatch literal remaining))
  | .field placeholder :: tail, remaining =>
    match nextLiteral? tail with
    | none => (captureInPlace tail []).map (Except.map ((placeholder, remaining) :: ·))
    | some (literal, behind) =>
      match Text.boundaryOffset? placeholder.isGreedy literal remaining with
      | none => none
      | some found =>
        -- Where there is no boundary, the offset may be the end of the text.
        match found.or (if behind.all Token.isField then some remaining.byteLength else none) with
        | none => some (.error (.separatorNotFound placeholder literal))
        | some offset =>
          match Text.splitAt? offset remaining with
          | none => none
          | some (value, rest) =>
            (captureInPlace tail rest).map (Except.map ((placeholder, value) :: ·))

/-- Matching in place captures what matching does, and splits between characters only. -/
theorem captureInPlace_eq (tokens : List Token) (location : Text) :
    captureInPlace tokens location = some (capture tokens location) := by
  fun_induction capture tokens location with
  | case1 => rfl
  | case2 remaining hne =>
    cases remaining with
    | nil => exact absurd rfl hne
    | cons c remaining => rfl
  | case3 literal tail remaining rest hrest ih =>
    simp only [captureInPlace, hrest, ih]
  | case4 literal tail remaining hmissing hoptional =>
    simp only [captureInPlace, hmissing, hoptional, if_true]
  | case5 literal tail remaining hmissing hrequired =>
    simp only [captureInPlace, hmissing, hrequired, Bool.false_eq_true, if_false]
  | case6 placeholder tail remaining hnext ih =>
    simp only [captureInPlace, hnext, ih, Option.map_some]
  | case7 placeholder tail remaining literal behind hnext value rest hboundary ih =>
    have hsplit : Text.splitAt? value.byteLength remaining = some (value, rest) :=
      Text.splitAt?_eq_some_iff.2 ⟨(Text.boundary_append hboundary).symm, rfl⟩
    simp only [captureInPlace, hnext, Text.boundaryOffset?_eq, hboundary, Option.map_some,
      Option.some_or, hsplit, ih]
  | case8 placeholder tail remaining literal behind hnext hboundary hbehind ih =>
    have hsplit : Text.splitAt? remaining.byteLength remaining = some (remaining, []) :=
      Text.splitAt?_eq_some_iff.2 ⟨(List.append_nil _).symm, rfl⟩
    simp only [captureInPlace, hnext, Text.boundaryOffset?_eq, hboundary, Option.map_none,
      Option.none_or, hbehind, if_true, hsplit, ih, Option.map_some]
  | case9 placeholder tail remaining literal behind hnext hboundary hbehind =>
    simp only [captureInPlace, hnext, Text.boundaryOffset?_eq, hboundary, Option.map_none,
      Option.none_or, hbehind, if_false, Bool.false_eq_true]

namespace Pattern

/-- No text is lost or made up by a match, not even by a pattern with adjacent placeholders: there
is one capture for each placeholder, in order, and the location is the pattern with these captures
in it, as far as it goes. No split on the way is inside a character. -/
theorem capture_loses_no_text (pattern : Pattern) (location : Text) :
    captureInPlace pattern.tokens location = some (capture pattern.tokens location) ∧
      ∀ captures, capture pattern.tokens location = .ok captures →
        captures.map Prod.fst = pattern.placeholders ∧
          (WritesOut pattern.tokens location captures ∨
            StopsInside pattern.tokens location captures) := by
  refine ⟨captureInPlace_eq pattern.tokens location, fun captures hcapture => ?_⟩
  have haccounts := accounts_of_capture hcapture
  exact ⟨haccounts.placeholders, haccounts⟩

/-- A run of two placeholders in front of a separator that the location stops in. -/
theorem capture_of_adjacent_placeholders :
    let pattern : Pattern := ⟨"%y%m – %P".toList,
      [.field .year, .field .month, .literal " – ".toList, .field .performers]⟩
    let captures : List Capture := [(.year, "2024".toList), (.month, []), (.performers, [])]
    compileLenient pattern.source = .ok pattern ∧
      capture pattern.tokens "2024 –".toList = .ok captures ∧
      captures.map Prod.fst = pattern.placeholders ∧
      (WritesOut pattern.tokens "2024 –".toList captures ∨
        StopsInside pattern.tokens "2024 –".toList captures) := by
  intro pattern captures
  have hcompile : compileLenient pattern.source = .ok pattern := by decide +kernel
  have hcapture : capture pattern.tokens "2024 –".toList = .ok captures := by decide +kernel
  exact ⟨hcompile, hcapture, (capture_loses_no_text pattern _).2 captures hcapture⟩

end Pattern

end EventFinder
