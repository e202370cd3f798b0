import PlsqlNav.Proofs.Scan.Walk
import PlsqlNav.Proofs.Token.Keyword

/-! What a scope declares, one member after another. A nested routine is one member, with all that is
nested in it. A block is its header, its members, and the step that closes its scope. -/
namespace PlsqlNav.Scan

variable {text : List Char} {s : Scan} {scope : Scope} {outer : List Scope} {t : Token} {ts : List Token}

/-- Whether no more members follow: the text ends, or a word comes that is none of a declaration. -/
def endsMembers : List Token → Bool
  | [] => true
  | t :: _ => t.isOneOf ["begin", "end", "create"]

/-- Reads one member to its end. -/
def member (text : List Char) (s : Scan) : Scan := (s.step text).closeTo text s.scopes.length

section Ends

theorem lead_ends : t.isOneOf ["begin", "end", "create"] ↔
    Lead.of t = .begin ∨ Lead.of t = .finish ∨ Lead.of t = .create := by
  rw [Token.isOneOf, List.any_cons, List.any_cons, List.any_cons, List.any_nil, Lead.of]
  constructor
  · grind
  · grind

/-- What is done at the end of the members. -/
def Action.Closes : Action → Prop
  | .close _ | .breakOff => True
  | .pass .. | .stepOver .. | .declare .. | .enter _ => False

theorem inside_closes_iff (flavour : Flavour) (afterDollar : Bool) (ts : List Token) :
    (Action.inside flavour afterDollar ts).Closes ↔ endsMembers ts := by
  cases ts with
  | nil => exact iff_of_true trivial rfl
  | cons t rest =>
    rw [Action.inside, endsMembers]
    split
    · next hsemi =>
      refine iff_of_false id fun hword => ?_
      exact absurd (Token.isName_of_isOneOf hword)
        (ne_true_of_eq_false (Token.not_isName_of_isPunct hsemi))
    split
    · next hname =>
      refine iff_of_false id fun hword => ?_
      rw [Token.isName_of_isOneOf hword] at hname
      contradiction
    rw [lead_ends]
    cases Lead.of t with
    | begin | finish | create => simp [Action.Closes]
    | pragma | other => simp [Action.Closes]
    | routine kind =>
      dsimp only
      split
      · simp [Action.Closes]
      · split <;> simp [Action.Closes]
    | named kind =>
      dsimp only
      split
      · simp [Action.Closes]
      · split <;> simp [Action.Closes]

/-- At the end of the members, a step closes the scope and no other. -/
theorem step_closes (hs : s.scopes = scope :: outer) (hends : endsMembers s.rest) :
    (s.step text).scopes = outer := by
  have hcloses : s.action.Closes := by
    rw [action, hs]
    exact (inside_closes_iff _ _ _).mpr hends
  rw [step_eq_perform]
  cases ha : s.action with
  | close extent =>
    simp only [perform, hs]
    cases extent <;> rfl
  | breakOff =>
    simp only [perform, hs]
    rfl
  | pass | stepOver | declare | enter =>
    rw [ha] at hcloses
    exact hcloses.elim

/-- Before the end of the members, a step leaves the scope open. -/
theorem step_over (hs : s.scopes = scope :: outer) (hends : ¬ endsMembers s.rest) :
    Over (fun _ => True) s.scopes (s.step text).scopes := by
  have hcloses : ¬ s.action.Closes := by
    rw [action, hs]
    exact (not_congr (inside_closes_iff _ _ _)).mpr hends
  rw [step_eq_perform]
  cases ha : s.action with
  | close | breakOff =>
    rw [ha] at hcloses
    exact (hcloses trivial).elim
  | pass rest d => exact .refl _
  | stepOver first rest => exact .refl _
  | enter hd => exact enter_over hd fun _ => trivial
  | declare first kind name rest =>
    simp only [perform, hs]
    exact (record_scopes _ _ _).trans hs ▸ .refl _

end Ends

section Member

theorem closeTo_suffix (text : List Char) (depth : Nat) (s : Scan) :
    (s.closeTo text depth).rest <:+ s.rest := by
  refine closeTo_keeps (P := fun s' => s'.rest <:+ s.rest) (fun _ h => ?_) (List.suffix_refl _)
  exact (step_suffix text _).trans h

theorem member_suffix (text : List Char) (s : Scan) : (s.member text).rest <:+ s.rest :=
  (closeTo_suffix text _ _).trans (step_suffix text s)

/-- A member leaves the scopes as they are. -/
theorem member_scopes (hs : s.scopes = scope :: outer) (hends : ¬ endsMembers s.rest) :
    (s.member text).scopes = s.scopes := by
  have hover : Over (fun _ => True) s.scopes (s.member text).scopes := by
    refine closeTo_keeps (P := fun s' => Over _ s.scopes s'.scopes) (fun hdeep h => ?_)
      (step_over hs hends)
    rw [step_eq_perform]
    exact perform_over h hdeep _ fun _ => trivial
  exact hover.eq_of_length_le (closeTo_length_le text _ _)

/-- A member has at least one token. -/
theorem member_length (hs : s.scopes = scope :: outer) (hends : ¬ endsMembers s.rest) :
    (s.member text).rest.length < s.rest.length := by
  have hgoes : ¬ s.isDone := by
    rw [isDone, hs]
    exact Bool.and_false _ ▸ Bool.false_ne_true
  have hsize : (s.step text).size < s.size := step_size hgoes
  obtain ⟨inner, hinner, _⟩ : Over (fun _ => True) s.scopes (s.step text).scopes := step_over hs hends
  have hclose := (closeTo_suffix text s.scopes.length (s.step text)).length_le
  simp only [size, hinner, List.length_append] at hsize
  rw [member]
  omega

/-- Reads the members of the innermost scope. -/
def members (text : List Char) (s : Scan) : Scan :=
  if h : s.scopes = [] ∨ endsMembers s.rest then s
  else
    have : (s.member text).rest.length < s.rest.length := by
      rw [not_or] at h
      obtain ⟨_, _, hs⟩ := List.exists_cons_of_ne_nil h.1
      exact member_length hs h.2
    members text (s.member text)
termination_by s.rest.length

theorem members_ended (hends : endsMembers s.rest) : s.members text = s := by
  rw [members, dif_pos (.inr hends)]

theorem members_member (hs : s.scopes = scope :: outer) (hends : ¬ endsMembers s.rest) :
    s.members text = (s.member text).members text := by
  have hopen : ¬ (s.scopes = [] ∨ endsMembers s.rest) := by
    rw [hs, not_or]
    exact ⟨List.cons_ne_nil _ _, hends⟩
  rw [members, dif_neg hopen]

/-- What each member keeps is kept by all of them together. -/
theorem members_keeps (text : List Char) {P : Scan → Prop}
    (hmember : ∀ {s : Scan}, s.scopes = scope :: outer → ¬ endsMembers s.rest → P s →
      P (s.member text))
    (hs : s.scopes = scope :: outer) (h : P s) :
    P (s.members text) ∧ (s.members text).scopes = s.scopes ∧ endsMembers (s.members text).rest := by
  induction hn : s.rest.length using Nat.strongRecOn generalizing s with
  | _ n ih =>
    subst hn
    by_cases hends : endsMembers s.rest
    · rw [members_ended hends]
      exact ⟨h, rfl, hends⟩
    · have hscopes : (s.member text).scopes = s.scopes := member_scopes hs hends
      rw [members_member hs hends, ← hscopes]
      exact ih _ (member_length hs hends) (hscopes.trans hs) (hmember hs hends h) rfl

end Member

section Block

theorem closeTo_closed {depth : Nat} (h : s.scopes.length ≤ depth) : s.closeTo text depth = s := by
  rw [closeTo, dif_pos h]

theorem closeTo_step {depth : Nat} (h : depth < s.scopes.length) :
    s.closeTo text depth = (s.step text).closeTo text depth := by
  rw [closeTo, dif_neg (Nat.not_le.mpr h)]

/-- To close some scopes and then more is to close them all at once. -/
theorem closeTo_closeTo {depth inner : Nat} (hle : depth ≤ inner) :
    (s.closeTo text inner).closeTo text depth = s.closeTo text depth := by
  fun_induction closeTo text inner s with
  | case1 => rfl
  | case2 s hopen _ _ ih =>
    rw [ih, ← closeTo_step (Nat.lt_of_le_of_lt hle (Nat.lt_of_not_le hopen))]

/-- A scope closes one step behind its members. -/
theorem closeTo_eq_step (hs : s.scopes = scope :: outer) :
    s.closeTo text outer.length = (s.members text).step text := by
  have hdeep {s : Scan} (hs : s.scopes = scope :: outer) : outer.length < s.scopes.length := by
    rw [hs]
    exact Nat.lt_succ_self _
  obtain ⟨hkept, hscopes, hends⟩ := members_keeps text
    (P := fun s' => s'.closeTo text outer.length = s.closeTo text outer.length)
    (fun {s'} hs' _ h => by
      rw [member, closeTo_closeTo (Nat.le_of_lt (hdeep hs')), ← closeTo_step (hdeep hs'), h]) hs rfl
  have hclosed : ((s.members text).step text).scopes.length ≤ outer.length :=
    Nat.le_of_eq (congrArg List.length (step_closes (hscopes.trans hs) hends))
  rw [← hkept, closeTo_step (hdeep (hscopes.trans hs)), closeTo_closed hclosed]

/-- Behind the header of a block come its members and what closes it, if the header opens it. -/
theorem block_eq (text : List Char) (recording : Bool) (hd : Header) (s : Scan) :
    s.block text recording hd =
      if (s.enter text recording hd).scopes.length ≤ s.scopes.length then s.enter text recording hd
      else ((s.enter text recording hd).members text).step text := by
  split
  · next hclosed => exact closeTo_closed hclosed
  · next hopen =>
    obtain hsame | ⟨flavour, hopened⟩ := enter_scopes text recording hd s
    · rw [hsame] at hopen
      exact absurd (Nat.le_refl _) hopen
    · exact closeTo_eq_step hopened

end Block

end PlsqlNav.Scan
