import AdmissionGuard.Proofs.ClientKeys
import AdmissionGuard.Proofs.Integers
import AdmissionGuard.Proofs.JsonGrammar
import AdmissionGuard.Settings.Environment

/-! Values of environment variables: texts with blanks around them, numerals, and lists whose
entries have commas between them. Splitting such a list undoes the joining. -/
namespace AdmissionGuard

namespace Text

structure Trimmed where
  chars : List Char
  ne_nil : chars ≠ []
  head_notBlank : ¬isBlank (chars.head ne_nil)
  last_notBlank : ¬isBlank (chars.getLast ne_nil)

namespace Trimmed

def text (e : Trimmed) : String := String.ofList e.chars

def Around (e : Trimmed) (cs : List Char) : Prop :=
  ∃ u w, (∀ c ∈ u, isBlank c) ∧ (∀ c ∈ w, isBlank c) ∧ cs = u ++ (e.chars ++ w)

def join (e : Trimmed) (middle : List Char) (f : Trimmed) : Trimmed where
  chars := e.chars ++ (middle ++ f.chars)
  ne_nil := by simp [e.ne_nil]
  head_notBlank := by
    rw [List.head_append_of_ne_nil e.ne_nil]
    exact e.head_notBlank
  last_notBlank := by
    rw [List.getLast_append_of_ne_nil _ (by simp [f.ne_nil]),
      List.getLast_append_of_ne_nil _ f.ne_nil]
    exact f.last_notBlank

theorem around_self (e : Trimmed) : e.Around e.chars := ⟨[], [], by simp, by simp, by simp⟩

theorem around_append {e : Trimmed} {u cs : List Char} (hu : ∀ c ∈ u, isBlank c)
    (h : e.Around cs) : e.Around (u ++ cs) := by
  obtain ⟨v, w, hv, hw, rfl⟩ := h
  exact ⟨u ++ v, w, List.forall_mem_append.2 ⟨hu, hv⟩, hw, by rw [List.append_assoc]⟩

theorem trim_around {e : Trimmed} {cs : List Char} (h : e.Around cs) : trim cs = e.chars := by
  obtain ⟨u, w, hu, hw, rfl⟩ := h
  have hfront : e.chars.dropWhile isBlank = e.chars := by
    rw [List.dropWhile_eq_self_iff]
    intro hpos
    have hhead := e.head_notBlank
    rwa [List.head_eq_getElem] at hhead
  rw [trim_blanks hu hw, trim_eq, hfront]
  exact List.rdropWhile_eq_self_iff.2 fun _ => e.last_notBlank

theorem trimmed?_around {e : Trimmed} {cs : List Char} (h : e.Around cs) :
    trimmed? (String.ofList cs) = some e.text := by
  simp [trimmed?, trimmed, trim_around h, e.ne_nil, text]

end Trimmed

def Joined (l : List Trimmed) (cs : List Char) : Prop := Separated Trimmed.Around l cs

theorem notMem_around {e : Trimmed} {cs : List Char} (he : ',' ∉ e.chars) (h : e.Around cs) :
    ',' ∉ cs := by
  obtain ⟨u, w, hu, hw, rfl⟩ := h
  have hblank : ¬isBlank ',' := by decide
  simp only [List.mem_append, not_or]
  exact ⟨fun h => hblank (hu _ h), he, fun h => hblank (hw _ h)⟩

theorem Joined.append {l : List Trimmed} {u cs : List Char} (hu : ∀ c ∈ u, isBlank c)
    (h : Joined l cs) : Joined l (u ++ cs) := by
  cases h with
  | last he => exact .last (Trimmed.around_append hu he)
  | more he hl =>
    rw [← List.append_assoc]
    exact .more (Trimmed.around_append hu he) hl

/-- Joined entries, trimmed as a whole, are still joined entries. -/
theorem Joined.trimmed {l : List Trimmed} {cs : List Char} (h : Joined l cs) :
    ∃ e : Trimmed, e.Around cs ∧ Joined l e.chars := by
  induction h with
  | @last e cs he => exact ⟨e, he, .last e.around_self⟩
  | @more e l cs ds he _ ih =>
    obtain ⟨u, w, hu, hw, rfl⟩ := he
    obtain ⟨f, ⟨v, z, hv, hz, rfl⟩, hf⟩ := ih
    refine ⟨e.join (w ++ ',' :: v) f, ⟨u, z, hu, hz, by simp [Trimmed.join]⟩, ?_⟩
    have hfirst : e.Around (e.chars ++ w) := ⟨[], w, by simp, hw, rfl⟩
    have hjoined : Joined (e :: l) (e.chars ++ w ++ ',' :: (v ++ f.chars)) :=
      .more hfirst (hf.append hv)
    simpa only [Trimmed.join, List.append_assoc, List.cons_append] using hjoined

theorem splitEntries_joined {l : List Trimmed} {cs : List Char} (h : Joined l cs)
    (hl : ∀ e ∈ l, ',' ∉ e.chars) : splitEntries (String.ofList cs) = l.map Trimmed.text := by
  rw [splitEntries, String.toList_ofList]
  induction h with
  | last he =>
    rw [split_of_notMem (notMem_around (hl _ List.mem_cons_self) he)]
    simp [Trimmed.trimmed?_around he]
  | more he _ ih =>
    rw [List.forall_mem_cons] at hl
    rw [split_append_sep (notMem_around hl.1 he), List.filterMap_cons, Trimmed.trimmed?_around he,
      ih hl.2, List.map_cons]

def DecimalText (n : Int) (cs : List Char) : Prop :=
  ∃ sign zeros, (sign = ['-'] ∧ n ≤ 0 ∨ sign ∈ [[], ['+']] ∧ 0 ≤ n) ∧
    cs = sign ++ (List.replicate zeros '0' ++ write 10 n.natAbs)

theorem readOn?_digits (zeros n : Nat) :
    readOn? 10 0 (List.replicate zeros '0' ++ write 10 n) = some n := by
  induction zeros with
  | zero => exact readOn?_write (by decide) (by decide) n
  | succ zeros ih => exact ih

theorem read?_digits (zeros n : Nat) :
    read? 10 (List.replicate zeros '0' ++ write 10 n) = some n := by
  have hne : ¬(List.replicate zeros '0' ++ write 10 n).isEmpty := by
    simp [write, Nat.toDigits_ne_nil]
  rw [read?, if_neg hne, readOn?_digits]

theorem readInt?_text {n : Int} {cs : List Char} (h : DecimalText n cs) (hn : inInt64 n) :
    readInt? cs = some n := by
  obtain ⟨sign, zeros, hsign, rfl⟩ := h
  obtain ⟨hne, hdigits, hvalue⟩ := read?_ten.1 (read?_digits zeros n.natAbs)
  refine readInt?_of_integerText ⟨sign, _, ?_, hne, hdigits, rfl, ?_, inInt64_iff.1 hn⟩
  · obtain ⟨rfl, -⟩ | ⟨hsign, -⟩ := hsign
    · simp
    · fin_cases hsign <;> simp
  · rw [← hvalue]
    obtain ⟨rfl, hneg⟩ | ⟨hsign, hpos⟩ := hsign
    · rw [if_pos rfl]
      omega
    · rw [if_neg (by fin_cases hsign <;> simp)]
      omega

theorem notBlank_decimal {n : Int} {cs : List Char} (h : DecimalText n cs) :
    cs ≠ [] ∧ ∀ c ∈ cs, ¬isBlank c := by
  obtain ⟨sign, zeros, hsign, rfl⟩ := h
  have hdigit := isSome_digit?_of_readOn? (readOn?_digits zeros n.natAbs)
  refine ⟨by simp [write, Nat.toDigits_ne_nil], ?_⟩
  rw [List.forall_mem_append]
  refine ⟨?_, fun c hc => not_isBlank_of_digit (hdigit c hc)⟩
  obtain ⟨rfl, -⟩ | ⟨hsign, -⟩ := hsign
  · simp [isBlank]
  · fin_cases hsign <;> simp [isBlank]

end Text

namespace Environment

def Sets {α : Type} (env : Environment) (name : String) (o : Option α)
    (P : α → List Char → Prop) : Prop :=
  match o with
  | none => env name = none
  | some a => ∃ cs, P a cs ∧ env name = some (String.ofList cs).toUTF8

theorem fromUTF8?_toUTF8 (s : String) : String.fromUTF8? s.toUTF8 = some s := by
  rw [String.fromUTF8?, String.toUTF8_eq_toByteArray, dif_pos s.isValidUTF8]
  rfl

theorem text?_of_trim {env : Environment} {name : String} {cs e : List Char}
    (h : env name = some (String.ofList cs).toUTF8) (htrim : Text.trim cs = e) (he : e ≠ []) :
    env.text? name = some (String.ofList e) := by
  rw [text?, string?, h, Option.bind_some, fromUTF8?_toUTF8]
  simp [Text.trimmed?, Text.trimmed, htrim, he]

theorem text?_of_unset {env : Environment} {name : String} (h : env name = none) :
    env.text? name = none := by simp [text?, string?, h]

theorem readD_sets {α β : Type} {env : Environment} {name : String} {o : Option α}
    {P : α → List Char → Prop} {read? : List Char → Option β} {value : α → β}
    (h : env.Sets name o P)
    (hread : ∀ a cs, P a cs → (cs ≠ [] ∧ ∀ c ∈ cs, ¬Text.isBlank c) ∧ read? cs = some (value a))
    (default : β) : env.readD name read? default = .ok (o.elim default value) := by
  cases o with
  | none => simp [readD, text?_of_unset h]
  | some a =>
    obtain ⟨cs, hP, hset⟩ := h
    obtain ⟨⟨hne, hblank⟩, hvalue⟩ := hread a cs hP
    simp [readD, text?_of_trim hset (Text.trim_of_notBlank hblank) hne, hvalue]

end Environment

end AdmissionGuard
