import PlsqlNav.Proofs.Glob.Encoding
import PlsqlNav.Text.Case

/-! What patterns match. The parts of a pattern take a text from the front, each as much as it likes of
what it may take, and the last one has to leave nothing. -/
namespace PlsqlNav.Glob

/-- The parts may take a text up to `rest`. -/
def Leaves (anyCase : Bool) (ps : List Part) (text rest : Bytes) : Prop :=
  rest ∈ rests anyCase ps [text]

section Leaves
variable {anyCase : Bool} {p : Part} {ps qs : List Part} {text rest : Bytes}

theorem mem_rests {texts : List Bytes} :
    rest ∈ rests anyCase ps texts ↔ ∃ text ∈ texts, Leaves anyCase ps text rest := by
  induction ps generalizing texts with
  | nil => simp [Leaves, rests]
  | cons p ps ih =>
    have hcons (text : Bytes) : Leaves anyCase (p :: ps) text rest ↔
        ∃ v ∈ p.rests anyCase text, Leaves anyCase ps v rest := by
      rw [Leaves, rests, ih]
      simp only [List.mem_eraseDups, List.flatMap_singleton]
    rw [rests, ih]
    simp only [hcons, List.mem_eraseDups, List.mem_flatMap]
    constructor
    · rintro ⟨v, ⟨text, htext, hv⟩, hrest⟩
      exact ⟨text, htext, v, hv, hrest⟩
    · rintro ⟨text, htext, v, hv, hrest⟩
      exact ⟨v, ⟨text, htext, hv⟩, hrest⟩

theorem leaves_nil : Leaves anyCase [] text rest ↔ rest = text := by
  rw [Leaves, rests, List.mem_singleton]

theorem leaves_cons : Leaves anyCase (p :: ps) text rest ↔
    ∃ v ∈ p.rests anyCase text, Leaves anyCase ps v rest := by
  rw [Leaves, rests, mem_rests]
  simp only [List.mem_eraseDups, List.flatMap_singleton]

theorem leaves_append : Leaves anyCase (ps ++ qs) text rest ↔
    ∃ v, Leaves anyCase ps text v ∧ Leaves anyCase qs v rest := by
  induction ps generalizing text with
  | nil => simp [leaves_nil]
  | cons p ps ih =>
    simp only [List.cons_append, leaves_cons, ih]
    constructor
    · rintro ⟨v, hv, w, hw, hrest⟩
      exact ⟨w, ⟨v, hv, hw⟩, hrest⟩
    · rintro ⟨w, ⟨v, hv, hw⟩, hrest⟩
      exact ⟨v, hv, w, hw, hrest⟩

end Leaves

section Parts
variable {text rest : Bytes}

theorem mem_restsAfterSlash : rest ∈ restsAfterSlash text ↔ ∃ before, text = before ++ slash :: rest := by
  induction text with
  | nil => simp [restsAfterSlash]
  | cons b text ih =>
    rw [restsAfterSlash]
    split
    · next hb =>
      rw [List.mem_cons, ih, hb]
      constructor
      · rintro (rfl | ⟨before, rfl⟩)
        · exact ⟨[], rfl⟩
        · exact ⟨slash :: before, rfl⟩
      · rintro ⟨before, hbefore⟩
        cases before with
        | nil => exact .inl (List.cons.inj hbefore).2.symm
        | cons c before => exact .inr ⟨before, (List.cons.inj hbefore).2⟩
    · next hb =>
      rw [ih]
      constructor
      · rintro ⟨before, rfl⟩
        exact ⟨b :: before, rfl⟩
      · rintro ⟨before, hbefore⟩
        cases before with
        | nil => exact absurd (List.cons.inj hbefore).1 hb
        | cons c before => exact ⟨before, (List.cons.inj hbefore).2⟩

theorem mem_front {anyCase : Bool} : rest ∈ Part.rests anyCase .front text ↔
    text = rest ∨ ∃ before, text = before ++ slash :: rest := by
  rw [Part.rests, List.mem_cons, mem_restsAfterSlash, eq_comm]

theorem mem_star {anyCase : Bool} : rest ∈ Part.rests anyCase .star text ↔
    ∃ taken, text = taken ++ rest ∧ slash ∉ taken := by
  rw [Part.rests]
  induction text with
  | nil =>
    rw [restsWithin, List.mem_singleton]
    constructor
    · rintro rfl
      exact ⟨[], rfl, List.not_mem_nil⟩
    · rintro ⟨taken, htaken, -⟩
      exact (List.append_eq_nil_iff.mp htaken.symm).2
  | cons b text ih =>
    rw [restsWithin, List.mem_cons]
    constructor
    · rintro (rfl | h)
      · exact ⟨[], rfl, List.not_mem_nil⟩
      · split at h
        · contradiction
        · next hb =>
          obtain ⟨taken, rfl, hslash⟩ := ih.mp h
          exact ⟨b :: taken, rfl, List.not_mem_cons_of_ne_of_not_mem (Ne.symm hb) hslash⟩
    · rintro ⟨taken, htaken, hslash⟩
      cases taken with
      | nil => exact .inl htaken.symm
      | cons c taken =>
        obtain ⟨rfl, rfl⟩ := List.cons.inj htaken
        rw [List.mem_cons, not_or] at hslash
        rw [if_neg (Ne.symm hslash.1)]
        exact .inr (ih.mpr ⟨taken, rfl, hslash.2⟩)

theorem afterBytes?_eq_some {front : Bytes} : afterBytes? true front text = some rest ↔
    ∃ taken, text = taken ++ rest ∧ lowerBytes taken = lowerBytes front := by
  induction front generalizing text with
  | nil =>
    rw [afterBytes?.eq_1, Option.some_inj]
    constructor
    · rintro rfl
      exact ⟨[], rfl, rfl⟩
    · rintro ⟨taken, rfl, htaken⟩
      rw [lowerBytes, lowerBytes, List.map_nil, List.map_eq_nil_iff] at htaken
      rw [htaken, List.nil_append]
  | cons a front ih =>
    cases text with
    | nil =>
      simp [afterBytes?, lowerBytes]
    | cons b text =>
      rw [afterBytes?]
      simp only [sameByte, if_true]
      constructor
      · intro h
        split at h
        · next hb =>
          obtain ⟨taken, rfl, htaken⟩ := ih.mp h
          refine ⟨b :: taken, rfl, ?_⟩
          simp only [lowerBytes, List.map_cons] at htaken ⊢
          rw [htaken, beq_iff_eq.mp hb]
        · contradiction
      · rintro ⟨taken, htaken, hlower⟩
        cases taken with
        | nil => simp [lowerBytes] at hlower
        | cons c taken =>
          obtain ⟨rfl, rfl⟩ := List.cons.inj htaken
          simp only [lowerBytes, List.map_cons, List.cons.injEq] at hlower
          rw [if_pos (beq_iff_eq.mpr hlower.1.symm)]
          exact ih.mpr ⟨taken, rfl, hlower.2⟩

theorem leaves_literals {cs : List Char} : Leaves true (cs.map .literal) text rest ↔
    ∃ taken, text = taken ++ rest ∧ lowerBytes taken = lowerBytes (encode cs) := by
  induction cs generalizing text with
  | nil =>
    rw [List.map_nil, leaves_nil]
    constructor
    · rintro rfl
      exact ⟨[], rfl, rfl⟩
    · rintro ⟨taken, rfl, htaken⟩
      rw [lowerBytes, lowerBytes, encode_nil, List.map_nil, List.map_eq_nil_iff] at htaken
      rw [htaken, List.nil_append]
  | cons c cs ih =>
    simp only [List.map_cons, leaves_cons, Part.rests, Option.mem_toList, afterBytes?_eq_some, ih,
      encode_cons, lowerBytes_append]
    constructor
    · rintro ⟨v, ⟨taken, rfl, htaken⟩, taken', rfl, htaken'⟩
      exact ⟨taken ++ taken', (List.append_assoc _ _ _).symm, by rw [lowerBytes_append, htaken, htaken']⟩
    · rintro ⟨taken, rfl, htaken⟩
      obtain ⟨front, back, rfl, hfront, hback⟩ := List.map_eq_append_iff.mp htaken
      exact ⟨back ++ rest, ⟨front, List.append_assoc _ _ _, hfront⟩, back, rfl, hback⟩

end Parts

section Names

theorem takeWhile_behind_slash {before text : Bytes} (h : slash ∉ text) :
    (before ++ slash :: text).reverse.takeWhile (· != slash) = text.reverse := by
  have hnot : ∀ b ∈ text.reverse, b != slash := by
    intro b hb
    rw [bne_iff_ne]
    rintro rfl
    exact h (List.mem_reverse.mp hb)
  rw [List.reverse_append, List.reverse_cons, List.append_assoc, List.takeWhile_append_of_pos hnot]
  simp

theorem eq_of_last_slash {a b c d : Bytes} (h : a ++ slash :: b = c ++ slash :: d) (hb : slash ∉ b)
    (hd : slash ∉ d) : b = d := by
  rw [← List.reverse_inj, ← takeWhile_behind_slash hb, h, takeWhile_behind_slash hd]

theorem slash_not_mem_utf8 {name : String} (h : '/' ∉ name.toList) : slash ∉ utf8 name :=
  fun hslash => h (slash_mem_encode.mp hslash)

theorem utf8_joined (names : List String) (name : String) :
    utf8 (String.intercalate "/" (names ++ [name])) = utf8 name ∧ names = [] ∨
      ∃ before, utf8 (String.intercalate "/" (names ++ [name])) = before ++ slash :: utf8 name := by
  cases names with
  | nil =>
    rw [List.nil_append, String.intercalate_singleton]
    exact .inl ⟨rfl, rfl⟩
  | cons n names =>
    refine .inr ⟨utf8 (String.intercalate "/" (n :: names)), ?_⟩
    rw [String.intercalate_append_of_ne_nil (List.cons_ne_nil n names) (List.cons_ne_nil name []),
      String.intercalate_singleton]
    simp only [utf8_eq, String.toList_append, encode_append, List.append_assoc]
    rfl

/-- A pattern that may stand in any directory, and does not cross them otherwise, matches a path when
it matches the last name. -/
theorem accepts_anywhere {ps : List Part} (hps : ps ≠ [])
    (hwithin : ∀ text, Leaves true ps text [] → slash ∉ text) (names : List String) {name : String}
    (hname : '/' ∉ name.toList) :
    accepts ⟨.front :: ps, true⟩ (String.intercalate "/" (names ++ [name])) ↔
      Leaves true ps (utf8 name) [] := by
  have haccepts (text : String) : accepts ⟨.front :: ps, true⟩ text ↔
      Leaves true (.front :: ps) (utf8 text) [] := by
    obtain ⟨p, qs, rfl⟩ := List.exists_cons_of_ne_nil hps
    exact List.contains_iff_mem
  rw [haccepts, leaves_cons]
  have hslash := slash_not_mem_utf8 hname
  constructor
  · rintro ⟨v, hv, hleaves⟩
    have hvslash := hwithin v hleaves
    rcases utf8_joined names name with ⟨hjoined, -⟩ | ⟨before, hjoined⟩
    · rw [hjoined, mem_front] at hv
      rcases hv with rfl | ⟨before, hbefore⟩
      · exact hleaves
      · rw [hbefore] at hslash
        exact absurd (List.mem_append_right before List.mem_cons_self) hslash
    · rw [hjoined, mem_front] at hv
      rcases hv with rfl | ⟨before', hbefore⟩
      · exact absurd (List.mem_append_right before List.mem_cons_self) hvslash
      · rwa [eq_of_last_slash hbefore hslash hvslash]
  · intro hleaves
    refine ⟨utf8 name, mem_front.mpr ?_, hleaves⟩
    rcases utf8_joined names name with ⟨hjoined, -⟩ | hjoined
    · exact .inl hjoined
    · exact .inr hjoined

theorem lowerBytes_utf8_eq_iff {s t : String} :
    lowerBytes (utf8 s) = lowerBytes (utf8 t) ↔ Text.sameName s t := by
  rw [utf8_eq, utf8_eq, lowerBytes_encode, lowerBytes_encode, Text.sameName_iff, Text.lower,
    Text.lower, String.ofList_inj]
  exact ⟨encode_injective, congrArg encode⟩

theorem slash_not_mem_of_lowerBytes {taken : Bytes} {cs : List Char}
    (h : lowerBytes taken = lowerBytes (encode cs)) (hcs : '/' ∉ cs) : slash ∉ taken := by
  rw [← slash_mem_lowerBytes, h, slash_mem_lowerBytes, slash_mem_encode]
  exact hcs

/-- A plain name matches itself in any directory and any letter case. -/
theorem accepts_name {d : String} (hd : d ≠ "") (hslash : '/' ∉ d.toList) (names : List String)
    {name : String} (hname : '/' ∉ name.toList) :
    accepts ⟨.front :: d.toList.map .literal, true⟩ (String.intercalate "/" (names ++ [name])) ↔
      Text.sameName name d := by
  have hparts : d.toList.map Part.literal ≠ [] := by
    rw [Ne, List.map_eq_nil_iff, String.toList_eq_nil_iff]
    exact hd
  rw [accepts_anywhere hparts ?_ names hname, leaves_literals]
  · simp only [List.append_nil, exists_eq_left', ← utf8_eq, lowerBytes_utf8_eq_iff]
  · intro text h
    obtain ⟨taken, rfl, htaken⟩ := leaves_literals.mp h
    rw [List.append_nil]
    exact slash_not_mem_of_lowerBytes htaken hslash

/-- A name that holds a hint and behind it ends in a point and an extension, in any letter case. -/
def Holds (hint extension name : String) : Prop :=
  ∃ x h y e, name = x ++ h ++ y ++ "." ++ e ∧ Text.sameName h hint ∧ Text.sameName e extension

def hintParts (hint extension : String) : List Part :=
  .star :: (hint.toList.map .literal ++ .star :: ('.' :: extension.toList).map .literal)

theorem leaves_hintParts {hint extension : String} {text : Bytes} :
    Leaves true (hintParts hint extension) text [] ↔
      ∃ x h y e, text = x ++ (h ++ (y ++ e)) ∧ slash ∉ x ∧ slash ∉ y ∧
        lowerBytes h = lowerBytes (utf8 hint) ∧ lowerBytes e = lowerBytes (utf8 ("." ++ extension)) := by
  have hextension : utf8 ("." ++ extension) = encode ('.' :: extension.toList) := by
    simp [utf8_eq]
  simp only [hintParts, leaves_cons, leaves_append, mem_star, leaves_literals, utf8_eq hint, hextension]
  constructor
  · rintro ⟨_, ⟨x, rfl, hx⟩, _, ⟨h, rfl, hh⟩, _, ⟨y, rfl, hy⟩, e, rfl, he⟩
    exact ⟨x, h, y, e, by rw [List.append_nil], hx, hy, hh, he⟩
  · rintro ⟨x, h, y, e, rfl, hx, hy, hh, he⟩
    exact ⟨_, ⟨x, rfl, hx⟩, _, ⟨h, rfl, hh⟩, _, ⟨y, rfl, hy⟩, e, (List.append_nil e).symm, he⟩

theorem eq_point_of_toLower {c : Char} (h : c.toLower = '.') : c = '.' := by
  have hnat := congrArg Char.toNat h
  rw [toNat_toLower] at hnat
  rw [← Char.toNat_inj]
  split at hnat
  · change _ = 46 at hnat
    omega
  · exact hnat

theorem sameName_ofList {cs : List Char} {t : String}
    (h : cs.map Char.toLower = t.toList.map Char.toLower) : Text.sameName (String.ofList cs) t := by
  rw [Text.sameName_iff, Text.lower, Text.lower, String.toList_ofList, h]

theorem map_toLower_eq {s t : String} (h : Text.sameName s t) :
    s.toList.map Char.toLower = t.toList.map Char.toLower :=
  String.ofList_inj.mp ((Text.sameName_iff s t).mp h)

/-- The bytes around a hint and in front of an extension are whole characters. -/
theorem leaves_utf8_hintParts {hint extension name : String} (hhint : hint ≠ "")
    (hname : '/' ∉ name.toList) :
    Leaves true (hintParts hint extension) (utf8 name) [] ↔ Holds hint extension name := by
  rw [leaves_hintParts]
  constructor
  · rintro ⟨x, h, y, e, hsplit, -, -, hh, he⟩
    have hlower := congrArg lowerBytes hsplit
    simp only [lowerBytes_append, hh, he, utf8_eq, lowerBytes_encode, String.toList_append] at hlower
    have hne : hint.toList.map Char.toLower ≠ [] := by
      rw [Ne, List.map_eq_nil_iff, String.toList_eq_nil_iff]
      exact hhint
    -- In lower case the hint's bytes are among the name's, so its characters are among them too, and
    -- those behind it end in the extension's.
    obtain ⟨as, rest, hchars, -, hrest⟩ := exists_of_encode_infix hlower hne
    obtain ⟨bs, cs, rfl, -, hnil⟩ := exists_of_encode_infix
      (hrest.trans (congrArg (lowerBytes y ++ ·) (List.append_nil _).symm)) (by simp)
    rw [encode_eq_nil_iff.mp hnil, List.append_nil] at hchars
    obtain ⟨x', rest, hx, -, hrest⟩ := List.map_eq_append_iff.mp hchars
    obtain ⟨h', rest, rfl, hh', hrest⟩ := List.map_eq_append_iff.mp hrest
    obtain ⟨y', rest, rfl, -, hrest⟩ := List.map_eq_append_iff.mp hrest
    obtain ⟨c, e', rfl, hc, he'⟩ := List.map_eq_cons_iff.mp hrest
    refine ⟨String.ofList x', String.ofList h', String.ofList y', String.ofList e', ?_,
      sameName_ofList hh', sameName_ofList he'⟩
    rw [← String.toList_inj, hx, eq_point_of_toLower hc]
    simp
  · rintro ⟨x, h, y, e, rfl, hh, he⟩
    simp only [String.toList_append, List.mem_append, not_or] at hname
    obtain ⟨⟨⟨⟨hx, -⟩, hy⟩, -⟩, -⟩ := hname
    refine ⟨utf8 x, utf8 h, utf8 y, utf8 ("." ++ e), ?_, slash_not_mem_utf8 hx, slash_not_mem_utf8 hy,
      lowerBytes_utf8_eq_iff.mpr hh, lowerBytes_utf8_eq_iff.mpr ?_⟩
    · simp only [utf8_eq, String.toList_append, encode_append, List.append_assoc]
    · rw [Text.sameName_iff, Text.lower, Text.lower, String.toList_append, String.toList_append,
        List.map_append, List.map_append, map_toLower_eq he]

/-- The pattern for a hint and an extension matches the paths whose last name holds them. -/
theorem accepts_hint {hint extension : String} (hhint : hint ≠ "") (hslash : '/' ∉ hint.toList)
    (hextension : '/' ∉ extension.toList) (names : List String) {name : String}
    (hname : '/' ∉ name.toList) :
    accepts ⟨.front :: hintParts hint extension, true⟩ (String.intercalate "/" (names ++ [name])) ↔
      Holds hint extension name := by
  have hpoint : '/' ∉ ("." ++ extension).toList := by
    rw [String.toList_append, List.mem_append, not_or]
    exact ⟨by decide, hextension⟩
  have hwithin (text : Bytes) (h : Leaves true (hintParts hint extension) text []) :
      slash ∉ text := by
    obtain ⟨x, h, y, e, rfl, hx, hy, hh, he⟩ := leaves_hintParts.mp h
    simp only [List.mem_append, not_or]
    exact ⟨hx, slash_not_mem_of_lowerBytes hh hslash, hy, slash_not_mem_of_lowerBytes he hpoint⟩
  exact (accepts_anywhere (List.cons_ne_nil _ _) hwithin names hname).trans
    (leaves_utf8_hintParts hhint hname)

end Names

end PlsqlNav.Glob
