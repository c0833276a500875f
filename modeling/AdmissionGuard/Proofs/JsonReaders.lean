import AdmissionGuard.Proofs.JsonValues

/-! Typed readers. Each takes a value off any text of it, and the reader of a record does so
whatever the order of its members and whatever others stand among them. -/
namespace AdmissionGuard.Json

open Text (Separated write)

def Reader.Reads {α : Type} (r : Reader α) (cs : List Char) (a : α) : Prop :=
  ∀ ws rest, Spaces ws → Ends rest → r.run (ws ++ (cs ++ rest)) = .ok (a, rest)

theorem Reader.Reads.map {α β : Type} {r : Reader α} {cs : List Char} {a : α} (h : r.Reads cs a)
    (f : α → β) : (r.map f).Reads cs (f a) := by
  intro ws rest hws hrest
  simp [Reader.map, h ws rest hws hrest, Except.map]

def flagText : Bool → List Char
  | true => ['t', 'r', 'u', 'e']
  | false => ['f', 'a', 'l', 's', 'e']

theorem reads_bool (b : Bool) : Reader.bool.Reads (flagText b) b := by
  intro ws rest hws _
  cases b <;>
    simp [Reader.bool, flagText, skipSpace_append hws, skipSpace_cons, isSpace, readWord,
      Except.map]

theorem reads_string {s : String} {cs : List Char} (h : StringText s cs) :
    Reader.string.Reads cs s := by
  intro ws rest hws _
  obtain ⟨pieces, hpieces, rfl⟩ := h
  simp [Reader.string, skipSpace_append hws, skipSpace_cons, isSpace, readString_pieces hpieces,
    Except.map]

/-! ### Integers -/

theorem isDigit_write (n : Nat) : ∀ c ∈ write 10 n, c.isDigit := by
  intro c hc
  have hread : Text.readOn? 10 0 (write 10 n) = some n :=
    Text.readOn?_write (by decide) (by decide) n
  obtain ⟨d, hd⟩ := Option.isSome_iff_exists.1 (Text.isSome_digit?_of_readOn? hread c hc)
  exact (Text.digit?_ten_eq_some.1 hd).1

theorem wholeText_write (n : Nat) : WholeText (write 10 n) := by
  obtain rfl | hn := Nat.eq_zero_or_pos n
  · exact .inl rfl
  · exact .inr ⟨⟨Nat.toDigits_ne_nil, isDigit_write n⟩, Text.head?_write_ne (by decide) hn⟩

def integerText (n : Int) : List Char :=
  if n < 0 then '-' :: write 10 n.natAbs else write 10 n.natAbs

theorem natural?_write {n : Nat} (h : n < significandLimit) :
    Numeral.natural? { whole := write 10 n } = some n := by
  simp [Numeral.natural?, Text.readBelow?, Text.read?_write, Option.filter, h]

theorem readNumber_write {n : Nat} {negative : Bool} {a : Number}
    (h : Numeral.number? negative { whole := write 10 n } = some a) {rest : List Char}
    (hrest : Ends rest) : readNumber negative (write 10 n ++ rest) = .ok (a, rest) := by
  rw [readNumber, scanNumeral_whole (wholeText_write n) (.of_ends hrest),
    scanFraction_of_ne (hrest.head?_ne (by decide)), scanScale_of_ends hrest]
  simp [h]

theorem reads_int64 {n : Int} (h : Text.inInt64 n) : Reader.int64.Reads (integerText n) n := by
  intro ws rest hws hrest
  have hrange := h
  simp only [Text.inInt64, Bool.and_eq_true, decide_eq_true_eq] at hrange
  have hlt : n.natAbs < significandLimit := by
    rw [significandLimit]
    omega
  by_cases hneg : n < 0
  · have hvalue : Numeral.number? true { whole := write 10 n.natAbs } = some (.whole n) := by
      have hsmall : ¬(n.natAbs = 0 ∨ 0x8000000000000000 < n.natAbs) := by omega
      have habs : -(n.natAbs : Int) = n := by omega
      simp only [Numeral.number?, natural?_write hlt, if_neg hsmall, habs]
      rfl
    simp [Reader.int64, integerText, hneg, skipSpace_append hws, skipSpace_cons, isSpace,
      readNumber_write hvalue hrest, Reader.asInt64, h]
  · have hvalue : Numeral.number? false { whole := write 10 n.natAbs } = some (.whole n) := by
      have habs : (n.natAbs : Int) = n := by omega
      simp only [Numeral.number?, natural?_write hlt, habs]
      rfl
    have hnumber := readNumber_write hvalue hrest
    obtain ⟨d, ds, hwrite, hd⟩ := (wholeText_write n.natAbs).head
    have hminus : d ≠ '-' := by
      rintro rfl
      exact absurd hd (by decide)
    rw [hwrite, List.cons_append] at hnumber
    simp [Reader.int64, integerText, hneg, skipSpace_append hws, hwrite,
      skipSpace_cons (not_isSpace_of_isDigit hd), hd, hnumber, Reader.asInt64, h]

/-! ### Lists -/

def comma (first : Bool) : List Char := if first then [] else [',']

theorem nextElement_item {us ws cs : List Char} (hus : Spaces us) (hws : Spaces ws)
    (hcs : Begins .list cs) (first : Bool) (rest : List Char) :
    nextElement first (us ++ (comma first ++ (ws ++ (cs ++ rest)))) = .ok (.item (cs ++ rest)) := by
  obtain ⟨c, r, rfl, hspace, hclose⟩ := hcs
  rw [Frame.close] at hclose
  have hfirst := skipSpace_cons hspace (r ++ rest)
  cases first with
  | true => simp [nextElement, comma, skipSpace_append hus, skipSpace_append hws, hfirst]
  | false =>
    simp [nextElement, comma, skipSpace_append hus, skipSpace_cons, isSpace,
      skipSpace_append hws, hfirst, hclose]

theorem nextElement_close {us : List Char} (hus : Spaces us) (rest : List Char) (first : Bool) :
    nextElement first (us ++ ']' :: rest) = .ok (.close rest) := by
  simp [nextElement, skipSpace_append hus, skipSpace_cons, isSpace]

section
variable {α : Type} {item : Reader α}

theorem readElements_item {first : Bool} {cs r rest : List Char} {a : α}
    (hnext : nextElement first cs = .ok (.item r)) (hitem : item.run r = .ok (a, rest))
    (done : List α) :
    readElements item first done cs = readElements item false (a :: done) rest := by
  rw [readElements]
  split
  · next h => simp [hnext] at h
  · next h => simp [hnext] at h
  · next h =>
    rw [hnext] at h
    cases h
    split <;> simp_all

theorem readElements_close {first : Bool} {cs rest : List Char}
    (hnext : nextElement first cs = .ok (.close rest)) (done : List α) :
    readElements item first done cs = .ok (done.reverse, rest) := by
  rw [readElements]
  split <;> simp_all

theorem readElements_text {P : α → List Char → Prop}
    (hitem : ∀ a v, P a v → item.Reads v a ∧ Begins .list v) {l : List α} {cs : List Char}
    (h : Separated (fun a => Padded (P a)) l cs) {us : List Char} (hus : Spaces us) (first : Bool)
    (done : List α) (rest : List Char) :
    readElements item first done (us ++ (comma first ++ (cs ++ ']' :: rest))) =
      .ok (done.reverse ++ l, rest) := by
  induction h generalizing us first done with
  | @last a _ ha =>
    obtain ⟨ws, v, zs, hws, hv, hzs, rfl⟩ := ha
    obtain ⟨hreads, hbegins⟩ := hitem a v hv
    have hends : Ends (zs ++ ']' :: rest) := .append hzs (ends_cons (by decide) rest)
    simp only [List.append_assoc]
    rw [readElements_item (nextElement_item hus hws hbegins first _)
      (hreads [] _ spaces_nil hends), readElements_close (nextElement_close hzs rest false)]
    simp
  | @more a l _ ds ha _ ih =>
    obtain ⟨ws, v, zs, hws, hv, hzs, rfl⟩ := ha
    obtain ⟨hreads, hbegins⟩ := hitem a v hv
    have hends : Ends (zs ++ ',' :: (ds ++ ']' :: rest)) := .append hzs (ends_cons (by decide) _)
    have hmore := ih hzs false (a :: done)
    simp only [List.append_assoc, List.cons_append]
    rw [readElements_item (nextElement_item hus hws hbegins first _)
      (hreads [] _ spaces_nil hends)]
    simpa [comma] using hmore

end

theorem StringText.begins {s : String} {cs : List Char} (h : StringText s cs) :
    Begins .list cs := by
  obtain ⟨pieces, -, rfl⟩ := h
  exact ⟨'"', _, rfl, by decide, by decide⟩

theorem reads_strings {l : List String} {cs : List Char} (h : StringsText l cs) :
    Reader.string.list.Reads cs l := by
  intro ws rest hws _
  obtain ⟨ds, hds, rfl⟩ := h
  have hitem : ∀ (s : String) v, StringText s v → Reader.string.Reads v s ∧ Begins .list v :=
    fun s v hv => ⟨reads_string hv, hv.begins⟩
  have hlist := readElements_text hitem hds spaces_nil true [] rest
  simp only [comma, if_true, List.nil_append, List.reverse_nil] at hlist
  simp [Reader.list, skipSpace_append hws, skipSpace_cons, isSpace, hlist]

/-! ### Records -/

theorem nextMember_name {us ws : List Char} (hus : Spaces us) (hws : Spaces ws) (first : Bool)
    (rest : List Char) :
    nextMember first (us ++ (comma first ++ (ws ++ '"' :: rest))) = .ok (.name rest) := by
  cases first <;>
    simp [nextMember, comma, skipSpace_append hus, skipSpace_append hws, skipSpace_cons, isSpace]

theorem nextMember_close {us : List Char} (hus : Spaces us) (first : Bool) (rest : List Char) :
    nextMember first (us ++ '\x7d' :: rest) = .ok (.close rest) := by
  simp [nextMember, skipSpace_append hus, skipSpace_cons, isSpace]

theorem readColon_text {us : List Char} (hus : Spaces us) (rest : List Char) :
    readColon (us ++ ':' :: rest) = .ok rest := by
  simp [readColon, skipSpace_append hus, skipSpace_cons, isSpace]

section
variable {σ : Type} {fields : List (RecordField σ)} {seen : List String} {s t : σ}

inductive Changes (fields : List (RecordField σ)) (seen : List String) :
    σ → String × List Char → σ → Prop where
  | field {s : σ} {f : RecordField σ} {v : List Char} {change : σ → σ}
      (hf : fields.find? (·.name = f.name) = some f) (hseen : f.name ∉ seen)
      (hreads : f.change.Reads v change) : Changes fields seen s (f.name, v) (change s)
  | other {s : σ} {name : String} {v : List Char} (hname : fields.find? (·.name = name) = none)
      (hv : Written .value v) : Changes fields seen s (name, v) s

theorem readMember_text {name : String} {v us xs : List Char}
    (h : Changes fields seen s (name, v) t) (hus : Spaces us) (hxs : Spaces xs) (rest : List Char)
    (hrest : Ends rest) :
    readMember fields seen name s (us ++ ':' :: (xs ++ (v ++ rest))) = .ok (t, rest) := by
  cases h with
  | field hf hseen hreads =>
    simp [readMember, hf, hseen, readColon_text hus, hreads xs rest hxs hrest, Except.map]
  | other hname hv =>
    simp [readMember, hname, readColon_text hus, skipValue_written hxs hv hrest, Except.map]

theorem readMembers_name {first : Bool} {name : String} {cs r r' rest : List Char}
    (hnext : nextMember first cs = .ok (.name r))
    (hname : readString [] r = .ok (name.toList, r'))
    (hmember : readMember fields seen name s r' = .ok (t, rest)) :
    readMembers fields first seen s cs = readMembers fields false (name :: seen) t rest := by
  rw [readMembers]
  split
  · next h => simp [hnext] at h
  · next h => simp [hnext] at h
  · next h =>
    rw [hnext] at h
    cases h
    split
    · next h => simp [hname] at h
    · next h =>
      rw [hname] at h
      cases h
      split <;> simp_all

theorem readMembers_close {first : Bool} {cs rest : List Char}
    (hnext : nextMember first cs = .ok (.close rest)) :
    readMembers fields first seen s cs = .ok (s, rest) := by
  rw [readMembers]
  split <;> simp_all

/-- The text of a member is read up to the space after its value. -/
theorem readMembers_member {m : String × List Char} {cs us : List Char}
    (hcs : MemberText m cs) (h : Changes fields seen s m t) (hus : Spaces us) (first : Bool)
    {rest : List Char} (hrest : Ends rest) :
    ∃ zs, Spaces zs ∧ readMembers fields first seen s (us ++ (comma first ++ (cs ++ rest))) =
      readMembers fields false (m.1 :: seen) t (zs ++ rest) := by
  obtain ⟨_, _, ⟨ws, _, ys, hws, ⟨pieces, hpieces, rfl⟩, hys, rfl⟩,
    ⟨xs, v, zs, hxs, rfl, hzs, rfl⟩, rfl⟩ := hcs
  refine ⟨zs, hzs, ?_⟩
  simp only [List.append_assoc, List.cons_append, List.nil_append]
  refine readMembers_name (nextMember_name hus hws first _) (readString_pieces hpieces [] _) ?_
  exact readMember_text h hys hxs _ (.append hzs hrest)

inductive ChangesAll (fields : List (RecordField σ)) :
    List String → σ → List (String × List Char) → σ → Prop where
  | nil {seen : List String} {s : σ} : ChangesAll fields seen s [] s
  | cons {seen : List String} {s t u : σ} {m : String × List Char} {ms : List (String × List Char)}
      (h : Changes fields seen s m t) (hms : ChangesAll fields (m.1 :: seen) t ms u) :
      ChangesAll fields seen s (m :: ms) u

theorem readMembers_text {ms : List (String × List Char)} {cs us : List Char}
    (hcs : Separated MemberText ms cs) (h : ChangesAll fields seen s ms t) (hus : Spaces us)
    (first : Bool) (rest : List Char) :
    readMembers fields first seen s (us ++ (comma first ++ (cs ++ '\x7d' :: rest))) =
      .ok (t, rest) := by
  induction hcs generalizing seen s us first with
  | last hm =>
    cases h with | cons h hnil =>
    cases hnil
    have hends : Ends ('\x7d' :: rest) := ends_cons (by decide) rest
    obtain ⟨zs, hzs, hread⟩ := readMembers_member hm h hus first hends
    rw [hread, readMembers_close (nextMember_close hzs false rest)]
  | @more m ms cs ds hm _ ih =>
    cases h with | cons h hms =>
    have hends : Ends (',' :: (ds ++ '\x7d' :: rest)) := ends_cons (by decide) _
    obtain ⟨zs, hzs, hread⟩ := readMembers_member hm h hus first hends
    have hmore := ih hms hzs false
    simp only [List.append_assoc, List.cons_append]
    rw [hread]
    exact hmore

theorem reads_record_of_changes {ms : List (String × List Char)} {cs : List Char}
    (hcs : ObjectText ms cs) (h : ChangesAll fields [] s ms t) (expected : String) :
    (Reader.record fields s expected).Reads cs t := by
  intro ws rest hws _
  obtain ⟨ds, hds, rfl⟩ := hcs
  have hmembers : readMembers fields true [] s (ds ++ '\x7d' :: rest) = .ok (t, rest) := by
    obtain ⟨rfl, hspace⟩ | hds := hds
    · cases h
      exact readMembers_close (nextMember_close hspace true rest)
    · exact readMembers_text hds h spaces_nil true rest
  simp [Reader.record, skipSpace_append hws, skipSpace_cons, isSpace, hmembers]

/-- The members have at most one of the field's name, and its value changes the record to what it is
once that name has been seen. -/
def Fills (state : List String → σ) (ms : List (String × List Char)) (f : RecordField σ) : Prop :=
  Gives ms f.name True fun v =>
    ∃ change, f.change.Reads v change ∧ ∀ seen, change (state seen) = state (f.name :: seen)

theorem valuesOf_cons (name : String) (m : String × List Char) (ms : List (String × List Char)) :
    valuesOf name (m :: ms) = if m.1 = name then m.2 :: valuesOf name ms else valuesOf name ms := by
  simp only [valuesOf, List.filter_cons, decide_eq_true_eq]
  split <;> rfl

variable {state : List String → σ} {ms : List (String × List Char)} {name : String}
  {absent : Prop} {present : List Char → Prop}

/-- Members change a record field by field, in any order. -/
theorem changesAll_of_fills
    (hstate : ∀ name seen, name ∉ fields.map (·.name) → state (name :: seen) = state seen)
    (hothers : Others (fields.map (·.name)) ms) (seen : List String)
    (hfields : ∀ f ∈ fields, Fills state ms f ∧ (f.name ∈ seen → valuesOf f.name ms = [])) :
    ChangesAll fields seen (state seen) ms (state ((ms.map Prod.fst).reverse ++ seen)) := by
  induction ms generalizing seen with
  | nil => exact .nil
  | cons m ms ih =>
    obtain ⟨name, v⟩ := m
    have hnames : ((((name, v) :: ms).map Prod.fst).reverse ++ seen) =
        (ms.map Prod.fst).reverse ++ (name :: seen) := by simp
    have hrest : Others (fields.map (·.name)) ms :=
      fun m hm => hothers m (List.mem_cons_of_mem _ hm)
    have hkeep : ∀ f ∈ fields, f.name ≠ name →
        Fills state ms f ∧ (f.name ∈ name :: seen → valuesOf f.name ms = []) := by
      intro f hf hne
      obtain ⟨hfills, hseen⟩ := hfields f hf
      simp only [Fills, Gives, valuesOf_cons, if_neg (Ne.symm hne)] at hfills hseen
      exact ⟨hfills, fun h => hseen ((List.mem_cons.1 h).resolve_left hne)⟩
    rw [hnames]
    -- A known name is used up by this member; for any other name the members after it count.
    cases hfind : fields.find? (·.name = name) with
    | none =>
      have hname : name ∉ fields.map (·.name) := by simpa using hfind
      have hne : ∀ f ∈ fields, f.name ≠ name := by
        rintro f hf rfl
        exact hname (List.mem_map_of_mem hf)
      have hmore := ih hrest (name :: seen) fun f hf => hkeep f hf (hne f hf)
      rw [hstate name seen hname] at hmore
      exact .cons (.other hfind (hothers (name, v) List.mem_cons_self hname)) hmore
    | some f =>
      obtain rfl : f.name = name := by simpa using List.find?_some hfind
      obtain ⟨hfills, hseen⟩ := hfields f (List.mem_of_find?_eq_some hfind)
      simp only [Fills, Gives, valuesOf_cons, if_true, List.cons.injEq] at hfills hseen
      obtain ⟨h, -⟩ | ⟨_, ⟨rfl, hnone⟩, change, hreads, hchange⟩ := hfills
      · cases h
      · have hnew : f.name ∉ seen := fun h => absurd (hseen h) (List.cons_ne_nil _ _)
        refine .cons (.field hfind hnew hreads) ?_
        rw [hchange seen]
        refine ih hrest (f.name :: seen) fun g hg => ?_
        by_cases hne : g.name = f.name
        · rw [hne]
          exact ⟨.inl ⟨by rw [hne, hnone], trivial⟩, fun _ => hnone⟩
        · exact hkeep g hg hne

/-- A record is read from any object that fills its fields. -/
theorem reads_record {cs : List Char} (hcs : ObjectText ms cs) (hs : state [] = s)
    (ht : state (ms.map Prod.fst).reverse = t)
    (hstate : ∀ name seen, name ∉ fields.map (·.name) → state (name :: seen) = state seen)
    (hothers : Others (fields.map (·.name)) ms) (hfields : ∀ f ∈ fields, Fills state ms f)
    (expected : String) : (Reader.record fields s expected).Reads cs t := by
  have hchanges := changesAll_of_fills hstate hothers [] fun f hf =>
    ⟨hfields f hf, fun h => absurd h List.not_mem_nil⟩
  rw [List.append_nil, hs, ht] at hchanges
  exact reads_record_of_changes hcs hchanges expected

theorem Gives.fills {α : Type} {r : Reader α} {change : α → σ → σ}
    (h : Gives ms name absent present)
    (hpresent : ∀ v, present v →
      ∃ a, r.Reads v a ∧ ∀ seen, change a (state seen) = state (name :: seen)) :
    Fills state ms ⟨name, r.map change⟩ := by
  obtain ⟨hnone, -⟩ | ⟨v, hv, hv'⟩ := h
  · exact .inl ⟨hnone, trivial⟩
  · obtain ⟨a, hreads, hstate⟩ := hpresent v hv'
    exact .inr ⟨v, hv, change a, hreads.map change, hstate⟩

theorem Holds.fills {α β : Type} {o : Option α} {P : α → List Char → Prop} {r : Reader β}
    {value : α → β} {change : β → σ → σ} (h : Holds ms name o P)
    (hreads : ∀ a v, P a v → r.Reads v (value a))
    (hstate : ∀ a ∈ o, ∀ seen, change (value a) (state seen) = state (name :: seen)) :
    Fills state ms ⟨name, r.map change⟩ :=
  Gives.fills h fun v ⟨a, ha, hP⟩ => ⟨value a, hreads a v hP, hstate a ha⟩

theorem Gives.mem_or (h : Gives ms name absent present) :
    absent ∨ name ∈ (ms.map Prod.fst).reverse := by
  obtain ⟨-, habsent⟩ | ⟨v, hv, -⟩ := h
  · exact .inl habsent
  · have hmem : v ∈ valuesOf name ms := by simp [hv]
    obtain ⟨m, hm, -⟩ := List.mem_map.1 hmem
    obtain ⟨hm, hname⟩ := List.mem_filter.1 hm
    rw [List.mem_reverse, ← of_decide_eq_true hname]
    exact .inr (List.mem_map_of_mem hm)

end

end AdmissionGuard.Json
