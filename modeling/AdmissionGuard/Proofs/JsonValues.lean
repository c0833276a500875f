import AdmissionGuard.Proofs.JsonGrammar

/-! Passing over a value. Any text of a value, of any kind and depth, is passed over as a whole. -/
namespace AdmissionGuard.Json

def afterValue (fs : List Frame) (cs : List Char) : Except Fault (List Char) :=
  match skipEnds fs cs with
  | .error e => .error e
  | .ok (.done rest) => .ok rest
  | .ok (.value gs rest) => skipValue gs rest

def skipInside (fs : List Frame) : Frame → List Char → Except Fault (List Char)
  | .list, cs => skipValue (.list :: fs) cs
  | .object, cs => (skipName cs).bind (skipValue (.object :: fs))

theorem skipValue_flat {cs rest : List Char} (h : skipStart cs = .ok (.flat rest))
    (fs : List Frame) : skipValue fs cs = afterValue fs rest := by
  rw [skipValue]
  split
  · next hs => simp [h] at hs
  · next hs => simp [h] at hs
  · next hs =>
    rw [h] at hs
    cases hs
    unfold afterValue
    split <;> simp_all

theorem skipValue_frame {cs rest : List Char} {f : Frame} (h : skipStart cs = .ok (.frame f rest))
    (fs : List Frame) : skipValue fs cs = skipValue (f :: fs) rest := by
  rw [skipValue]
  split
  · next hs => simp [h] at hs
  · next hs =>
    rw [h] at hs
    cases hs
    rfl
  · next hs => simp [h] at hs

theorem skipStart_spaces {ws : List Char} (h : Spaces ws) (cs : List Char) :
    skipStart (ws ++ cs) = skipStart cs := by
  rw [skipStart, skipSpace_append h, skipStart]

theorem skipValue_spaces {ws : List Char} (h : Spaces ws) (fs : List Frame) (cs : List Char) :
    skipValue fs (ws ++ cs) = skipValue fs cs := by
  rw [skipValue, skipStart_spaces h, skipValue]

theorem skipName_spaces {ws : List Char} (h : Spaces ws) (cs : List Char) :
    skipName (ws ++ cs) = skipName cs := by
  rw [skipName, skipSpace_append h, skipName]

theorem skipName_text {name us : List Char} (hname : AnyString name) (hus : Spaces us)
    (rest : List Char) : skipName (name ++ (us ++ ':' :: rest)) = .ok rest := by
  obtain ⟨pieces, hpieces, rfl⟩ := hname
  simp [skipName, skipSpace_cons, isSpace, skipString_pieces hpieces, skipSpace_append hus]

theorem skipInside_lead {f : Frame} {lead : List Char} (h : Lead f lead) (fs : List Frame)
    (cs : List Char) : skipInside fs f (lead ++ cs) = skipValue (f :: fs) cs := by
  cases f with
  | list => exact skipValue_spaces h _ cs
  | object =>
    obtain ⟨_, xs, ⟨ws, name, us, hws, hname, hus, rfl⟩, hxs, rfl⟩ := h
    have hskip : skipName (ws ++ (name ++ us) ++ ':' :: xs ++ cs) = .ok (xs ++ cs) := by
      simp only [List.append_assoc, List.cons_append]
      rw [skipName_spaces hws, skipName_text hname hus]
    rw [skipInside, hskip]
    exact skipValue_spaces hxs _ cs

def Begins (f : Frame) (cs : List Char) : Prop := ∃ c r, cs = c :: r ∧ ¬isSpace c ∧ c ≠ f.close

theorem WholeText.head {cs : List Char} (h : WholeText cs) : ∃ d ds, cs = d :: ds ∧ d.isDigit := by
  obtain rfl | ⟨⟨hne, hds⟩, -⟩ := h
  · exact ⟨'0', [], rfl, rfl⟩
  · obtain ⟨d, ds, rfl⟩ := List.exists_cons_of_ne_nil hne
    exact ⟨d, ds, rfl, hds d List.mem_cons_self⟩

theorem begins_of_digit {c : Char} (h : c.isDigit) (f : Frame) (r : List Char) :
    Begins f (c :: r) := by
  refine ⟨c, r, rfl, not_isSpace_of_isDigit h, ?_⟩
  rintro rfl
  cases f <;> exact absurd h (by decide)

theorem Written.begins {cs : List Char} (h : Written .value cs) (f : Frame) : Begins f cs := by
  have sure (c : Char) (r : List Char) (hc : c ∈ ['n', 't', 'f', '-', '"', '[', '\x7b']) :
      Begins f (c :: r) := by
    refine ⟨c, r, rfl, ?_, ?_⟩
    · fin_cases hc <;> decide
    · cases f <;> fin_cases hc <;> decide
  cases h with
  | word h => fin_cases h <;> exact sure _ _ (by decide)
  | number h =>
    obtain ⟨sign, hsign, whole, fraction, exponent, hwhole, -, -, rfl⟩ := h
    fin_cases hsign
    · obtain ⟨d, ds, rfl, hd⟩ := hwhole.head
      exact begins_of_digit hd f _
    · exact sure _ _ (by decide)
  | string h =>
    obtain ⟨pieces, -, rfl⟩ := h
    exact sure _ _ (by decide)
  | empty g => cases g <;> exact sure _ _ (by decide)
  | @full g => cases g <;> exact sure _ _ (by decide)

/-- Nothing is closed before the first value inside a list or an object. -/
theorem Written.begins_inside {f : Frame} {cs : List Char} (h : Written (.inside f) cs) :
    ∃ ws v, cs = ws ++ v ∧ Spaces ws ∧ Begins f v := by
  have first {lead v rest : List Char} (hlead : Lead f lead) (hv : Written .value v) :
      ∃ ws u, lead ++ (v ++ rest) = ws ++ u ∧ Spaces ws ∧ Begins f u := by
    cases f with
    | list =>
      obtain ⟨c, r, rfl, hc⟩ := hv.begins .list
      exact ⟨lead, _, rfl, hlead, c, r ++ rest, rfl, hc⟩
    | object =>
      obtain ⟨_, xs, ⟨ws, _, us, hws, ⟨pieces, -, rfl⟩, -, rfl⟩, -, rfl⟩ := hlead
      refine ⟨ws, '"' :: (pieces.flatten ++ '"' :: (us ++ ':' :: (xs ++ (v ++ rest)))), ?_, hws,
        '"', _, rfl, by decide, by decide⟩
      simp only [List.append_assoc, List.cons_append, List.nil_append]
  cases h with
  | last hlead hv => exact first hlead hv
  | more hlead hv => exact first hlead hv

theorem skipValue_open {f : Frame} {ws cs : List Char} (hws : Spaces ws) (hcs : Begins f cs)
    (fs : List Frame) : skipValue fs (f.opening :: (ws ++ cs)) = skipInside fs f (ws ++ cs) := by
  obtain ⟨c, r, rfl, hspace, hclose⟩ := hcs
  have hskip : skipSpace (ws ++ c :: r) = c :: r := by
    rw [skipSpace_append hws, skipSpace_cons hspace]
  cases f with
  | list =>
    rw [Frame.close] at hclose
    have hstart : skipStart ('[' :: (ws ++ c :: r)) = .ok (.frame .list (c :: r)) := by
      simp [skipStart, skipSpace_cons, isSpace, hskip, hclose]
    rw [Frame.opening, skipValue_frame hstart, skipInside, skipValue_spaces hws]
  | object =>
    rw [Frame.close] at hclose
    have hstart : skipStart ('\x7b' :: (ws ++ c :: r)) =
        (skipName (c :: r)).map (.frame .object) := by
      simp [skipStart, skipSpace_cons, isSpace, hskip, hclose]
    rw [Frame.opening, skipInside, skipName_spaces hws]
    cases hname : skipName (c :: r) with
    | error e =>
      rw [hname] at hstart
      rw [skipValue]
      split <;> simp_all [Except.map, Except.bind]
    | ok rest =>
      rw [hname] at hstart
      exact skipValue_frame hstart fs

theorem afterValue_close {f : Frame} {us : List Char} (h : Spaces us) (fs : List Frame)
    (rest : List Char) : afterValue (f :: fs) (us ++ f.close :: rest) = afterValue fs rest := by
  have hends : skipEnds (f :: fs) (us ++ f.close :: rest) = skipEnds fs rest := by
    cases f <;> simp [skipEnds, skipSpace_append h, skipSpace_cons, isSpace, Frame.close]
  rw [afterValue, hends, afterValue]

theorem afterValue_comma {f : Frame} {us : List Char} (h : Spaces us) (fs : List Frame)
    (cs : List Char) : afterValue (f :: fs) (us ++ ',' :: cs) = skipInside fs f cs := by
  have hskip : skipSpace (us ++ ',' :: cs) = ',' :: cs := by
    rw [skipSpace_append h, skipSpace_cons (by decide)]
  cases f with
  | list => simp [afterValue, skipEnds, hskip, Frame.close, skipInside]
  | object =>
    cases hname : skipName cs <;>
      simp [afterValue, skipEnds, hskip, Frame.close, skipInside, hname, Except.map, Except.bind]

/-- What passing over a text comes to, wherever it stands. -/
def Passed : Part → List Char → Prop
  | .value, cs => ∀ fs rest, Ends rest → skipValue fs (cs ++ rest) = afterValue fs rest
  | .inside f, cs => ∀ fs rest, skipInside fs f (cs ++ f.close :: rest) = afterValue fs rest

theorem passed_word {cs : List Char} (h : cs ∈ ["null".toList, "true".toList, "false".toList]) :
    Passed .value cs := by
  intro fs rest _
  refine skipValue_flat ?_ fs
  fin_cases h <;> simp [skipStart, skipSpace_cons, isSpace, readWord, Except.map]

theorem passed_number {cs : List Char} (h : NumberText cs) : Passed .value cs := by
  intro fs rest hrest
  refine skipValue_flat ?_ fs
  obtain ⟨sign, hsign, whole, fraction, exponent, hwhole, hfraction, hexponent, rfl⟩ := h
  obtain ⟨n, hn⟩ := scanNumeral_text hwhole hfraction hexponent hrest .badNumber
  fin_cases hsign
  · obtain ⟨d, ds, rfl, hd⟩ := hwhole.head
    have hne : ∀ c : Char, ¬c.isDigit → d ≠ c := by
      rintro c hc rfl
      exact hc hd
    rw [List.cons_append] at hn
    simp [skipStart, skipSpace_cons (not_isSpace_of_isDigit hd), hne, hd, hn, Except.map]
  · simp [skipStart, skipSpace_cons, isSpace, hn, Except.map]

theorem passed_string {cs : List Char} (h : AnyString cs) : Passed .value cs := by
  intro fs rest _
  obtain ⟨pieces, hpieces, rfl⟩ := h
  refine skipValue_flat ?_ fs
  simp [skipStart, skipSpace_cons, isSpace, skipString_pieces hpieces, Except.map]

theorem passed_empty (f : Frame) {ws : List Char} (h : Spaces ws) :
    Passed .value (f.opening :: (ws ++ [f.close])) := by
  intro fs rest _
  refine skipValue_flat ?_ fs
  cases f <;>
    simp [skipStart, Frame.opening, Frame.close, skipSpace_cons, isSpace, skipSpace_append h]

/-- Any text of a value is passed over, up to what comes after it. -/
theorem passed_of_written {p : Part} {cs : List Char} (h : Written p cs) : Passed p cs := by
  -- What is open around the value and what follows it stay general: both change at each bracket.
  induction h with
  | word h => exact passed_word h
  | number h => exact passed_number h
  | string h => exact passed_string h
  | empty f h => exact passed_empty f h
  | @full f cs h ih =>
    intro fs rest _
    obtain ⟨ws, v, rfl, hws, c, r, rfl, hc⟩ := h.begins_inside
    have hbegins : Begins f (c :: (r ++ f.close :: rest)) := ⟨c, _, rfl, hc⟩
    have hinside := ih fs rest
    simp only [List.append_assoc, List.cons_append, List.nil_append] at hinside ⊢
    rw [skipValue_open hws hbegins, hinside]
  | @last f lead v us hlead _ hus ih =>
    intro fs rest
    have hends : Ends (us ++ f.close :: rest) :=
      .append hus (ends_cons (by cases f <;> decide) rest)
    simp only [List.append_assoc]
    rw [skipInside_lead hlead, ih _ _ hends, afterValue_close hus]
  | @more f lead v us cs hlead _ hus _ ih ihmore =>
    intro fs rest
    have hends : Ends (us ++ ',' :: (cs ++ f.close :: rest)) :=
      .append hus (ends_cons (by decide) _)
    simp only [List.append_assoc, List.cons_append]
    rw [skipInside_lead hlead, ih _ _ hends, afterValue_comma hus, ihmore]

/-- A value that nothing is open around is passed over as a whole. -/
theorem skipValue_written {ws v rest : List Char} (hws : Spaces ws) (hv : Written .value v)
    (hrest : Ends rest) : skipValue [] (ws ++ (v ++ rest)) = .ok rest := by
  rw [skipValue_spaces hws, passed_of_written hv [] rest hrest]
  rfl

end AdmissionGuard.Json
