import PlsqlNav.Token

/-! A token is at most one keyword or mark, so that one test settles the others. -/
namespace PlsqlNav.Token

variable {t : Token} {a b : String} {c d : Char} {keywords : List String}

theorem isName_of_isWord (h : t.isWord a) : t.isName := by
  rw [isWord, Bool.and_eq_true] at h
  rw [isName, h.1, Bool.true_or]

/-- Two keywords of one token differ by letter case at most. -/
theorem sameName_of_isWord (ha : t.isWord a) (hb : t.isWord b) : Text.sameName a b := by
  rw [isWord, Bool.and_eq_true] at ha hb
  exact Text.sameName_trans (Text.sameName_comm t.text a ▸ ha.2) hb.2

theorem isWord_of_isWord (h : t.isWord a) (b : String) : t.isWord b = Text.sameName a b := by
  rw [Bool.eq_iff_iff]
  constructor
  · exact fun hb => sameName_of_isWord h hb
  · intro hab
    rw [isWord, Bool.and_eq_true] at h ⊢
    exact ⟨h.1, Text.sameName_trans h.2 hab⟩

theorem not_isWord_of_isWord (ha : t.isWord a) (hab : Text.sameName a b = false) :
    t.isWord b = false := by
  rw [isWord_of_isWord ha, hab]

theorem not_isName_of_isPunct (h : t.isPunct c) : t.isName = false := by
  rw [isPunct, beq_iff_eq] at h
  rw [isName, h]
  rfl

theorem not_isPunct_of_isName (h : t.isName) : t.isPunct c = false := by
  rw [Bool.eq_false_iff]
  intro hc
  rw [not_isName_of_isPunct hc] at h
  contradiction

theorem not_isWord_of_not_isName (h : t.isName = false) : t.isWord a = false := by
  rw [Bool.eq_false_iff]
  intro ha
  rw [isName_of_isWord ha] at h
  contradiction

theorem not_isPunct_of_isPunct (hc : t.isPunct c) (hcd : c ≠ d) : t.isPunct d = false := by
  rw [isPunct, beq_iff_eq] at hc
  rw [isPunct, hc, beq_eq_false_iff_ne]
  intro h
  cases h
  exact hcd rfl

theorem isOneOf_iff : t.isOneOf keywords ↔ ∃ k ∈ keywords, t.isWord k := by
  rw [isOneOf, List.any_eq_true]

theorem not_isOneOf_iff : t.isOneOf keywords = false ↔ ∀ k ∈ keywords, t.isWord k = false := by
  simp only [isOneOf, List.any_eq_false, Bool.not_eq_true]

theorem not_isOneOf_of_subset {others : List String} (h : t.isOneOf keywords = false)
    (hk : ∀ k ∈ others, k ∈ keywords) : t.isOneOf others = false :=
  not_isOneOf_iff.mpr fun k hmem => not_isOneOf_iff.mp h k (hk k hmem)

theorem isOneOf_singleton : t.isOneOf [a] = t.isWord a := by
  rw [isOneOf, List.any_cons, List.any_nil, Bool.or_false]

theorem isName_of_isOneOf (h : t.isOneOf keywords) : t.isName := by
  obtain ⟨k, _, hk⟩ := isOneOf_iff.mp h
  exact isName_of_isWord hk

theorem not_isOneOf_of_not_isName (h : t.isName = false) : t.isOneOf keywords = false :=
  not_isOneOf_iff.mpr fun _ _ => not_isWord_of_not_isName h

theorem not_isOneOf_of_isWord (ha : t.isWord a)
    (hk : (keywords.any fun k => Text.sameName a k) = false) : t.isOneOf keywords = false := by
  rw [not_isOneOf_iff]
  intro k hmem
  rw [List.any_eq_false] at hk
  exact not_isWord_of_isWord ha (Bool.not_eq_true _ ▸ hk k hmem)

theorem not_isOneOf_of_isOneOf {others : List String} (h : t.isOneOf keywords)
    (hk : (keywords.any fun a => others.any fun b => Text.sameName a b) = false) :
    t.isOneOf others = false := by
  obtain ⟨a, ha, hword⟩ := isOneOf_iff.mp h
  rw [List.any_eq_false] at hk
  exact not_isOneOf_of_isWord hword (Bool.not_eq_true _ ▸ hk a ha)

theorem not_isWord_of_isOneOf (h : t.isOneOf keywords)
    (hk : (keywords.any fun k => Text.sameName k a) = false) : t.isWord a = false := by
  obtain ⟨k, hmem, hword⟩ := isOneOf_iff.mp h
  rw [List.any_eq_false] at hk
  exact not_isWord_of_isWord hword (Bool.not_eq_true _ ▸ hk k hmem)

end PlsqlNav.Token
