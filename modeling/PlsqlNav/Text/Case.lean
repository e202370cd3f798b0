/-! Letter case of the ASCII letters. Names of the language compare without it; other letters
stand for themselves. -/
namespace PlsqlNav.Text

def lower (s : String) : String := String.ofList (s.toList.map Char.toLower)

def sameName (a b : String) : Bool := lower a == lower b

@[simp] theorem sameName_refl (a : String) : sameName a a := by simp [sameName]

theorem sameName_comm (a b : String) : sameName a b = sameName b a := by
  simp only [sameName]; exact BEq.comm

theorem sameName_iff (a b : String) : sameName a b ↔ lower a = lower b := by simp [sameName]

theorem sameName_trans {a b c : String} (h : sameName a b) (k : sameName b c) :
    sameName a c := by
  rw [sameName_iff] at *; exact h.trans k

end PlsqlNav.Text
