import PlsqlNav.Proofs.Token.Comment
import PlsqlNav.Proofs.Token.Placement

/-! Tokens cover their text. Between them stand white space and comments only, and a token carries the
comment before it where that is documentation. -/
namespace PlsqlNav.Token

section Cover
variable (IsComment : List Char → List Char → Prop)

/-- A stretch of white space and comments that starts at `pos` and has `rest` behind it, and the last
comment in it. Whether a text is a comment may depend on what is behind it. -/
inductive Stretch : Nat → List Char → List Char → Option Comment → Prop where
  | nil {pos : Nat} {rest : List Char} : Stretch pos rest [] none
  | blank {pos : Nat} {rest : List Char} {c : Char} {gap : List Char} {last : Option Comment} :
      Text.isBlank c → Stretch (pos + c.utf8Size) rest gap last → Stretch pos rest (c :: gap) last
  | comment {pos : Nat} {rest text gap : List Char} {last : Option Comment} :
      IsComment (gap ++ rest) text → Stretch (pos + Text.byteLength text) rest gap last →
        Stretch pos rest (text ++ gap) (last <|> some ⟨pos, String.ofList text⟩)

/-- A text that starts at `pos` consists of the tokens `ts`, none empty, and of stretches of white space
and comments before, between and after them. Each token has the last comment of the stretch right
before it for its documentation, where that comment is documentation. -/
inductive Covers : Nat → List Char → List Token → Prop where
  | last {pos : Nat} {text : List Char} {last : Option Comment} :
      Stretch IsComment pos [] text last → Covers pos text []
  | token {pos : Nat} {text gap rest : List Char} {t : Token} {ts : List Token} :
      text = gap ++ (t.text.toList ++ rest) → t.start = pos + Text.byteLength gap → t.text.toList ≠ [] →
        (∃ last, Stretch IsComment pos (t.text.toList ++ rest) gap last) →
          (∀ last, Stretch IsComment pos (t.text.toList ++ rest) gap last →
            t.doc = last.filter fun c => Lexeme.isDocumentation c.text.toList) →
            Covers t.stop rest ts → Covers pos text (t :: ts)

end Cover

section Stretch
variable {pos : Nat} {rest gap gap' : List Char} {last last' : Option Comment}

theorem not_isBlank_of_readComment {c : Char} {comment : List Char}
    (h : Lexeme.ReadComment rest comment) (hc : comment.head? = some c) : ¬ Text.isBlank c := by
  obtain ⟨c, cs, rfl, rfl | rfl⟩ := h.exists_cons
  · cases hc
    decide
  · cases hc
    decide

/-- The white space and the comments of a stretch can be told in one way only. -/
theorem Stretch.unique (h : Stretch Lexeme.ReadComment pos rest gap last)
    (h' : Stretch Lexeme.ReadComment pos rest gap' last') (hgap : gap = gap') : last = last' := by
  induction h generalizing gap' last' with
  | nil =>
    cases h' with
    | nil => rfl
    | blank => contradiction
    | comment hcomment _ =>
      obtain ⟨c, cs, rfl, _⟩ := hcomment.exists_cons
      contradiction
  | blank hc h ih =>
    cases h' with
    | nil => contradiction
    | blank _ h' =>
      cases hgap
      exact ih h' rfl
    | comment hcomment _ =>
      obtain ⟨c, cs, rfl, _⟩ := hcomment.exists_cons
      cases hgap
      exact absurd hc (not_isBlank_of_readComment hcomment rfl)
  | @comment pos rest text gap last hcomment h ih =>
    cases h' with
    | nil =>
      obtain ⟨c, cs, rfl, _⟩ := hcomment.exists_cons
      contradiction
    | blank hc _ =>
      obtain ⟨c, cs, rfl, _⟩ := hcomment.exists_cons
      cases hgap
      exact absurd hc (not_isBlank_of_readComment hcomment rfl)
    | @comment _ _ text' gap' last' hcomment' h' =>
      have htext : text ++ (gap ++ rest) = text' ++ (gap' ++ rest) := by
        rw [← List.append_assoc, hgap, List.append_assoc]
      obtain ⟨rfl, hrest⟩ := hcomment.unique hcomment' htext
      rw [ih h' (List.append_cancel_right hrest)]

end Stretch

section Congruence
variable {IsComment IsComment' : List Char → List Char → Prop} {pos : Nat}

theorem Stretch.imp {rest gap : List Char} {last : Option Comment} (h : Stretch IsComment pos rest gap last)
    (himp : ∀ behind comment, comment ++ behind <:+ gap ++ rest →
      IsComment behind comment → IsComment' behind comment) : Stretch IsComment' pos rest gap last := by
  induction h with
  | nil => exact .nil
  | @blank _ rest c gap _ hc _ ih =>
    refine .blank hc (ih fun behind comment hsuffix => himp behind comment ?_)
    exact hsuffix.trans (List.suffix_cons c (gap ++ rest))
  | @comment _ rest text gap _ hcomment _ ih =>
    rw [List.append_assoc] at himp
    refine .comment (himp _ _ (List.suffix_refl _) hcomment) (ih fun behind comment hsuffix => ?_)
    exact himp behind comment (hsuffix.trans (List.suffix_append text (gap ++ rest)))

/-- What a text is covered by depends on the comments in it alone. -/
theorem Covers.congr {text : List Char} {ts : List Token} (h : Covers IsComment pos text ts)
    (hiff : ∀ behind comment, comment ++ behind <:+ text →
      (IsComment behind comment ↔ IsComment' behind comment)) : Covers IsComment' pos text ts := by
  induction h with
  | last hstretch =>
    refine .last (hstretch.imp fun behind comment hsuffix => (hiff behind comment ?_).mp)
    rwa [List.append_nil] at hsuffix
  | @token _ _ gap rest t _ htext hstart hne hstretch hdoc _ ih =>
    subst htext
    obtain ⟨last, hstretch⟩ := hstretch
    refine .token rfl hstart hne ⟨last, ?_⟩ ?_ (ih ?_)
    · exact hstretch.imp fun behind comment hsuffix => (hiff behind comment hsuffix).mp
    · intro last' h'
      exact hdoc last' (h'.imp fun behind comment hsuffix => (hiff behind comment hsuffix).mpr)
    · intro behind comment hsuffix
      refine hiff behind comment (hsuffix.trans ?_)
      rw [← List.append_assoc]
      exact List.suffix_append _ rest

end Congruence

/-- The documentation for the next token, where `doc` waited before a stretch with the last comment
`last`. -/
def pending (doc : Option Comment) : Option Comment → Option Comment
  | none => doc
  | some c => if Lexeme.isDocumentation c.text.toList then some c else none

theorem pending_none (last : Option Comment) :
    pending none last = last.filter fun c => Lexeme.isDocumentation c.text.toList := by
  cases last <;> rfl

theorem pending_comment {pos : Nat} {text : List Char} (h : Lexeme.isDocumentation text)
    (doc last : Option Comment) : pending (some ⟨pos, String.ofList text⟩) last =
      pending doc (last <|> some ⟨pos, String.ofList text⟩) := by
  cases last with
  | none =>
    have hdoc : pending doc (some ⟨pos, String.ofList text⟩) = some ⟨pos, String.ofList text⟩ :=
      if_pos (by rwa [String.toList_ofList])
    exact hdoc.symm
  | some c => rfl

theorem pending_plain {pos : Nat} {text : List Char} (h : ¬ Lexeme.isDocumentation text)
    (doc last : Option Comment) :
    pending none last = pending doc (last <|> some ⟨pos, String.ofList text⟩) := by
  cases last with
  | none =>
    have hnone : pending doc (some ⟨pos, String.ofList text⟩) = none :=
      if_neg (by rwa [String.toList_ofList])
    exact hnone.symm
  | some c => rfl

/-- The stretch before a comment goes on behind it. -/
theorem Stretch.lexeme {pos n : Nat} {c : Char} {cs gap rest : List Char} {last : Option Comment}
    (h : Lexeme.ReadComment (cs.drop n) (c :: cs.take n)) (hgap : cs.drop n = gap ++ rest)
    (hstretch : Stretch Lexeme.ReadComment (pos + Text.byteLength (c :: cs.take n)) rest gap last) :
    c :: cs = c :: cs.take n ++ gap ++ rest ∧
      Stretch Lexeme.ReadComment pos rest (c :: cs.take n ++ gap)
        (last <|> some ⟨pos, String.ofList (c :: cs.take n)⟩) := by
  rw [hgap] at h
  refine ⟨?_, .comment h hstretch⟩
  rw [List.append_assoc, ← hgap, List.cons_append, List.take_append_drop]

/-- What is read of a text before its first token. -/
theorem scan_stretch (pos : Nat) (doc : Option Comment) (cs : List Char) : ∃ gap rest last,
    cs = gap ++ rest ∧ Stretch Lexeme.ReadComment pos rest gap last ∧
      scan pos doc cs = scan (pos + Text.byteLength gap) (pending doc last) rest ∧
        ∀ c tail, rest = c :: tail →
          ¬ Text.isBlank c ∧ ∃ kind n, Lexeme.read c tail = (.token kind, n) := by
  fun_induction scan pos doc cs with
  | case1 pos doc =>
    refine ⟨[], [], none, rfl, .nil, by rw [scan], ?_⟩
    rintro _ _ ⟨⟩
  | case2 pos doc c cs hblank ih =>
    obtain ⟨gap, rest, last, rfl, hstretch, hscan, hrest⟩ := ih
    refine ⟨c :: gap, rest, last, rfl, .blank hblank hstretch, ?_, hrest⟩
    rw [hscan, Text.byteLength, Nat.add_assoc]
  | case3 pos doc c cs hblank n lexeme next hread ih =>
    obtain ⟨gap, rest, last, hgap, hstretch, hscan, hrest⟩ := ih
    obtain ⟨_, hcomment⟩ := Lexeme.readComment_of_read hread (.inl rfl)
    obtain ⟨htext, hall⟩ := hstretch.lexeme hcomment hgap
    refine ⟨_, rest, _, htext, hall, ?_, hrest⟩
    rw [hscan, Text.byteLength_append, ← Nat.add_assoc,
      pending_comment ((Lexeme.isDocumentation_iff_of_read hread (.inl rfl)).mpr rfl)]
  | case4 pos doc c cs hblank n lexeme next hread ih =>
    obtain ⟨gap, rest, last, hgap, hstretch, hscan, hrest⟩ := ih
    obtain ⟨_, hcomment⟩ := Lexeme.readComment_of_read hread (.inr rfl)
    obtain ⟨htext, hall⟩ := hstretch.lexeme hcomment hgap
    refine ⟨_, rest, _, htext, hall, ?_, hrest⟩
    rw [hscan, Text.byteLength_append, ← Nat.add_assoc,
      pending_plain (mt (Lexeme.isDocumentation_iff_of_read hread (.inr rfl)).mp (by decide))]
  | case5 pos doc c cs hblank n lexeme next kind hread ih =>
    refine ⟨[], c :: cs, none, rfl, .nil, ?_, ?_⟩
    · rw [scan_token hblank hread]
      rfl
    · rintro _ _ ⟨⟩
      exact ⟨hblank, kind, n, hread⟩

theorem scan_covers (pos : Nat) (cs : List Char) :
    Covers Lexeme.ReadComment pos cs (scan pos none cs) := by
  obtain ⟨gap, rest, last, hcs, hstretch, hscan, hrest⟩ := scan_stretch pos none cs
  have hlen : rest.length ≤ cs.length := by
    rw [hcs, List.length_append]
    exact Nat.le_add_left _ _
  rw [hscan, hcs]
  cases rest with
  | nil =>
    rw [scan, List.append_nil]
    exact .last hstretch
  | cons c rest =>
    obtain ⟨hc, kind, n, hread⟩ := hrest c rest rfl
    rw [scan_token hc hread]
    have htext : c :: rest = (String.ofList (c :: rest.take n)).toList ++ rest.drop n := by
      rw [String.toList_ofList, List.cons_append, List.take_append_drop]
    rw [htext] at hstretch ⊢
    refine .token rfl rfl ?_ ⟨last, hstretch⟩ ?_ ?_
    · rw [String.toList_ofList]
      exact List.cons_ne_nil _ _
    · -- However the stretch is divided, its last comment is the one that was read.
      intro last' h'
      rw [← hstretch.unique h' rfl]
      exact pending_none last
    · rw [stop, String.toList_ofList]
      exact scan_covers _ _
termination_by cs.length
decreasing_by
  rw [List.length_cons] at hlen
  rw [List.length_drop]
  omega

/-- Where there is no empty comment, complete comments are all that stands between tokens. -/
theorem ofText_covers_complete {text : String} (h : ¬ Lexeme.emptyComment <:+: text.toList) :
    Covers Lexeme.CompleteComment 0 text.toList (ofText text) := by
  refine (scan_covers 0 text.toList).congr fun behind comment hsuffix => ?_
  exact Lexeme.readComment_iff fun hempty => h (hempty.trans hsuffix.isInfix)

/-- Tokens lose nothing of the text and add nothing to it. -/
theorem ofText_covers (text : String) : Laid 0 (Text.byteLength text.toList) (ofText text) ∧
    Covers Lexeme.ReadComment 0 text.toList (ofText text) :=
  ⟨ofText_laid text, scan_covers 0 text.toList⟩

section Empty
variable {pos : Nat} {rest gap gap' : List Char} {last : Option Comment}

theorem eq_emptyComment {comment tail tail' : List Char} (h : Lexeme.CompleteComment rest comment)
    (htext : comment ++ tail = Lexeme.emptyComment ++ tail') : comment = Lexeme.emptyComment := by
  cases h with
  | line => cases htext
  | @block body hbody =>
    rcases body with _ | ⟨d, _ | ⟨e, body⟩⟩
    · rfl
    · cases htext
    · cases htext
      exact absurd (List.prefix_append Lexeme.close (body ++ ['*'])).isInfix hbody

theorem Stretch.behind_emptyComment (h : Stretch Lexeme.CompleteComment pos rest gap last)
    (hgap : gap = Lexeme.emptyComment ++ gap') :
    ∃ pos last, Stretch Lexeme.CompleteComment pos rest gap' last := by
  cases h with
  | nil => contradiction
  | blank hc _ =>
    cases hgap
    exact absurd hc (by decide)
  | comment hcomment h =>
    rw [eq_emptyComment hcomment hgap] at hgap
    exact ⟨_, _, List.append_cancel_left hgap ▸ h⟩

theorem Stretch.head (h : Stretch Lexeme.CompleteComment pos rest gap last) {c : Char}
    (hgap : gap = c :: gap') : Text.isBlank c ∨ c = '/' ∨ c = '-' := by
  cases h with
  | nil => contradiction
  | blank hc _ =>
    cases hgap
    exact .inl hc
  | comment hcomment _ =>
    cases hcomment with
    | line =>
      cases hgap
      exact .inr (.inr rfl)
    | block =>
      cases hgap
      exact .inr (.inl rfl)

/-- A token between an empty comment and a later one is lost: it is in no complete comment. -/
theorem not_covers_emptyComment :
    ¬ Covers Lexeme.CompleteComment 0 "/**/x/* y */z".toList (ofText "/**/x/* y */z") := by
  have htokens : ofText "/**/x/* y */z" = [⟨.word, 12, "z", some ⟨0, "/**/x/* y */"⟩⟩] := by
    decide +kernel
  rw [htokens]
  intro h
  cases h with
  | @token _ _ gap rest _ _ htext hstart _ hstretch =>
    obtain ⟨last, hstretch⟩ := hstretch
    have hlen : Text.byteLength gap = 12 := (hstart.trans (Nat.zero_add _)).symm
    have hgap : gap = Lexeme.emptyComment ++ "x/* y */".toList := by
      rw [← Text.takeBytes_append gap, ← htext, hlen]
      decide +kernel
    obtain ⟨_, _, hbehind⟩ := hstretch.behind_emptyComment hgap
    have hx : "x/* y */".toList = 'x' :: "/* y */".toList := by decide +kernel
    exact absurd (hbehind.head hx) (by decide)

end Empty

end PlsqlNav.Token
