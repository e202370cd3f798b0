import Mathlib.Data.List.Induction
import PlsqlNav.Outline.Query
import PlsqlNav.Proofs.Cursor.Name
import PlsqlNav.Proofs.Outline.Kinds
import PlsqlNav.Proofs.Scan.Headed
import PlsqlNav.Proofs.Text.Position
import PlsqlNav.Proofs.Token.Keyword

/-! The cursor on the header of a routine. The line alone tells which name the header declares, and the
declaration nearest before the cursor that has this name is the routine of that header. -/
namespace PlsqlNav

open Text Lexeme

namespace Cursor

def Identifier.token (n : Identifier) (start : Nat) : Token where
  kind := if n.quoted then .quoted else .word
  start := start
  text := String.ofList n.spelling
  doc := none

/-- The tokens of a title that starts at the position `start`. -/
def Title.tokens (start : Nat) : Title → List Token
  | plain name => [name.token start]
  | qualified schema before after name =>
    let point := start + byteLength (schema.spelling ++ before.chars)
    [schema.token start, ⟨.punct '.', point, ".", none⟩,
      name.token (point + byteLength ('.' :: after.chars))]

/-- A title ends with the token of its name. -/
theorem Title.exists_tokens_eq (start : Nat) (title : Title) : ∃ front p,
    title.tokens start = front ++ [title.name.token p] ∧
    p + byteLength title.name.spelling = start + byteLength title.spelling := by
  cases title with
  | plain name => exact ⟨[], start, rfl, rfl⟩
  | qualified schema before after name =>
    refine ⟨[_, _], _, rfl, ?_⟩
    simp only [Title.name, Title.spelling, byteLength_append, byteLength]
    omega

theorem Identifier.token_stop (n : Identifier) (p : Nat) : (n.token p).stop = p + byteLength n.spelling := by
  rw [Token.stop, Identifier.token, String.toList_ofList]

theorem Title.exists_spelling_eq (title : Title) :
    ∃ front, title.spelling = front ++ title.name.spelling := by
  cases title with
  | plain name => exact ⟨[], rfl⟩
  | qualified schema before after name =>
    refine ⟨schema.spelling ++ (before.chars ++ '.' :: after.chars), ?_⟩
    simp only [Title.spelling, Title.name, List.append_assoc, List.cons_append]

theorem Identifier.mem_spelling (n : Identifier) {c : Char} (hc : c ∈ n.spelling) :
    continuesWord c ∨ c = '"' := by
  have hquote (hc : c ∈ quoteIf n.quoted) : c = '"' := by
    cases hq : n.quoted with
    | true =>
      rw [hq] at hc
      exact List.mem_singleton.mp hc
    | false =>
      rw [hq] at hc
      contradiction
  rw [spelling, List.mem_append, List.mem_append] at hc
  rcases hc with hc | hc | hc
  · exact .inr (hquote hc)
  · exact .inl (n.continues_chars c hc)
  · exact .inr (hquote hc)

theorem Identifier.spelling_ne_nil (n : Identifier) : n.spelling ≠ [] := by
  rw [spelling, chars]
  simp

/-- The keyword of a routine and its title stand on one line of the text, where the header of the symbol
`x` has them. -/
structure HeaderLine (text : String) (x : Symbol) where
  front : List Char
  keyword : Token
  gap : Gap
  title : Title
  back : List Char
  /-- The tokens after the header's name. -/
  rest : List Token
  isKeyword : keyword.isOneOf ["function", "procedure"]
  placed : keyword.start = byteLength front
  spelled : text.toList = front ++ (keyword.text.toList ++ (gap.chars ++ title.spelling) ++ back)
  spaced : gap.chars ≠ []
  read : Header.skipCreate ((Token.ofText text).dropWhile (·.start < x.start)) =
    keyword :: (title.tokens (keyword.stop + byteLength gap.chars) ++ rest)
  named : Header.qualifiedName (title.tokens (keyword.stop + byteLength gap.chars) ++ rest) =
    some (String.ofList title.name.chars, rest)
  bounded : ∀ c ∈ front.getLast?, ¬ continuesWord c
  ends : title.name.quoted = false → ∀ c ∈ back.head?, ¬ isWordChar c

namespace HeaderLine
variable {text : String} {x : Symbol} (hd : HeaderLine text x)

/-- The line reads on behind the name where the header does not. -/
def ReadsOn : Prop := ∃ name, hd.title = .plain name ∧ PointAhead (quoteIf name.quoted ++ hd.back)

/-- A name goes on into the keyword, by characters that are word characters but go on no word. -/
def RunsInto : Prop := ∃ c ∈ hd.front.reverse.takeWhile goesOn, startsWord c

def titleStart : Nat := hd.keyword.stop + byteLength hd.gap.chars

/-- The position right behind the name. -/
def stop : Nat := hd.titleStart + byteLength hd.title.spelling

section Tokens

theorem suffix : hd.keyword :: (hd.title.tokens hd.titleStart ++ hd.rest) <:+ Token.ofText text := by
  have hskip := Header.skipCreate_suffix ((Token.ofText text).dropWhile (·.start < x.start))
  rw [hd.read] at hskip
  exact hskip.trans (List.dropWhile_suffix _)

include hd in
theorem exists_first : ∃ t us, (Token.ofText text).dropWhile (·.start < x.start) = t :: us := by
  apply List.exists_cons_of_ne_nil
  intro hnil
  have hread := hd.read
  rw [hnil] at hread
  contradiction

/-- The header of the symbol is the one on the line. -/
theorem exists_header : ∃ h, x.header? (Token.ofText text) = some h ∧
    h.name = String.ofList hd.title.name.chars ∧ h.rest = hd.rest := by
  have hunit : ∃ kind, Header.unitKind (hd.keyword :: (hd.title.tokens hd.titleStart ++ hd.rest)) =
      some (kind, hd.title.tokens hd.titleStart ++ hd.rest) := by
    obtain ⟨k, hk, hword⟩ := Token.isOneOf_iff.mp hd.isKeyword
    rw [List.mem_cons, List.mem_singleton] at hk
    rw [Header.unitKind.eq_def]
    dsimp only
    rcases hk with rfl | rfl
    · exact ⟨_, if_pos hword⟩
    · rw [if_neg (Bool.not_eq_true _ ▸ Token.not_isWord_of_isWord hword (by decide))]
      exact ⟨_, if_pos hword⟩
  obtain ⟨kind, hkind⟩ := hunit
  obtain ⟨t, us, hus⟩ := hd.exists_first
  have hread := hd.read
  have hnamed := hd.named
  rw [hus] at hread
  refine ⟨⟨t, kind, String.ofList hd.title.name.chars, hd.rest⟩, ?_, rfl, rfl⟩
  rw [Symbol.header?, Header.ofUnit?, hus, hread]
  simp only [List.head?_cons, Option.bind_eq_bind, Option.bind_some]
  rw [titleStart] at hkind
  rw [hkind]
  simp only [Option.bind_some, hnamed]

theorem stop_eq : hd.stop =
    byteLength (hd.front ++ (hd.keyword.text.toList ++ (hd.gap.chars ++ hd.title.spelling))) := by
  simp only [stop, titleStart, Token.stop, hd.placed, byteLength_append, Nat.add_assoc]

theorem exists_nameToken : ∃ p, hd.title.name.token p :: hd.rest <:+ Token.ofText text ∧
    p + byteLength hd.title.name.spelling = hd.stop := by
  obtain ⟨front, p, htokens, hstop⟩ := hd.title.exists_tokens_eq hd.titleStart
  have hsuffix := hd.suffix
  rw [htokens, List.append_assoc, List.singleton_append] at hsuffix
  exact ⟨p, (List.suffix_append (hd.keyword :: front) _).trans hsuffix, hstop⟩

/-- What is behind the header's name starts behind it. -/
theorem stop_le {u : Token} {us : List Token} (hu : u :: us <:+ hd.rest) : hd.stop ≤ u.start := by
  obtain ⟨p, hname, hstop⟩ := hd.exists_nameToken
  have hlaid := ((Token.ofText_laid text).suffix hname).2.2.suffix hu
  rw [Identifier.token_stop, hstop] at hlaid
  exact hlaid.1

/-- The text goes on with `back` behind the name. -/
theorem back_eq {front back : List Char} (htext : text.toList = front ++ back)
    (hlen : byteLength front = hd.stop) : back = hd.back := by
  have hspelled := hd.spelled
  rw [htext, ← List.append_assoc] at hspelled
  exact (append_inj_of_byteLength hspelled (hlen.trans hd.stop_eq)).2

theorem not_goesOn_back (hq : hd.title.name.quoted = false) : ∀ c ∈ hd.back.head?, ¬ goesOn c := by
  obtain ⟨p, hname, hstop⟩ := hd.exists_nameToken
  have hkind : (hd.title.name.token p).kind = .word := by rw [Identifier.token, hq]; rfl
  obtain ⟨front, back, hstands⟩ := Token.exists_wordStands hname hkind
  have hback : back = hd.back := by
    refine hd.back_eq (show text.toList = (front ++ hd.title.name.spelling) ++ back from ?_) ?_
    · rw [hstands.split, Identifier.token, String.toList_ofList, List.append_assoc]
    · rw [byteLength_append, ← hstands.start]
      exact hstop
  intro c hc hgoes
  have hword := hd.ends hq c hc
  have hcontinues := hstands.whole c (hback ▸ hc)
  simp only [goesOn, continuesWord, Bool.or_eq_true] at hgoes hcontinues
  rcases hgoes with (hgoes | hgoes) | hgoes
  · exact hword hgoes
  · exact hcontinues (.inl (.inr hgoes))
  · exact hcontinues (.inr hgoes)

theorem exists_keyword : ∃ c cs, hd.keyword.text.toList = c :: cs ∧ startsWord c ∧
    (∀ d ∈ cs, continuesWord d) ∧ isRoutineKeyword hd.keyword.text ∧
      isRoutineKeyword (lower hd.keyword.text) := by
  obtain ⟨k, hk, hword⟩ := Token.isOneOf_iff.mp hd.isKeyword
  rw [Token.isWord, Bool.and_eq_true, beq_iff_eq] at hword
  obtain ⟨_, _, hstands⟩ := Token.exists_wordStands hd.suffix hword.1
  obtain ⟨c, cs, htext, hstart, hcs⟩ := hstands.starts
  have hlower := (sameName_iff _ _).mp hword.2
  refine ⟨c, cs, htext, hstart, hcs, ?_⟩
  rw [List.mem_cons, List.mem_singleton] at hk
  rw [isRoutineKeyword, isRoutineKeyword, Bool.or_eq_true, Bool.or_eq_true, hlower]
  rcases hk with rfl | rfl
  · exact ⟨.inl hword.2, .inl (by decide)⟩
  · exact ⟨.inr hword.2, .inr (by decide)⟩

end Tokens

section Line

/-- What the line has from the keyword through the name. -/
def middle : List Char := hd.keyword.text.toList ++ (hd.gap.chars ++ hd.title.spelling)

/-- The line starts at the position `start` and has `left` before the keyword, and `right` behind the name
as far as the cursor sees it. -/
structure Stands (start : Nat) (left right : List Char) : Prop where
  front : ∃ before, hd.front = before ++ left ∧ byteLength before = start
  back : ∃ more, hd.back = right ++ more
  oneLine : '\n' ∉ right
  position : ∀ offset, hd.keyword.start ≤ offset → offset ≤ hd.stop → ∃ l,
    lineCol (lineStarts text.toList) offset = (l, offset - start + 1) ∧
    lineAt text l = some (String.ofList (left ++ (hd.middle ++ right))) ∧
    offsetOf text l (offset - start + 1) = some offset

theorem not_newline_middle : '\n' ∉ hd.middle := by
  obtain ⟨c, cs, hkeyword, hc, hcs, _⟩ := hd.exists_keyword
  have hplain {n : Identifier} : '\n' ∉ n.spelling := fun hmem => by
    rcases n.mem_spelling hmem with hmem | hmem <;> contradiction
  rw [middle, hkeyword]
  simp only [List.mem_append, List.mem_cons, not_or]
  refine ⟨⟨?_, ?_⟩, hd.gap.oneLine, ?_⟩
  · rintro rfl
    contradiction
  · exact fun hmem => absurd (hcs _ hmem) (by decide)
  · cases hd.title with
    | plain name => exact hplain
    | qualified schema before after name =>
      simp only [Title.spelling, List.mem_append, List.mem_cons, not_or]
      exact ⟨hplain, before.oneLine, by decide, after.oneLine, hplain⟩

theorem getLast?_middle (left : List Char) : ∀ c ∈ (left ++ hd.middle).getLast?, c ≠ '\r' := by
  obtain ⟨front, hspelling⟩ := hd.title.exists_spelling_eq
  have hc := List.getLast?_eq_some_getLast hd.title.name.spelling_ne_nil
  generalize hd.title.name.spelling.getLast _ = c at hc
  have hlast : (left ++ hd.middle).getLast? = some c := by
    rw [middle, hspelling]
    simp only [← List.append_assoc]
    rw [List.getLast?_append, hc]
    rfl
  intro d hd'
  rw [hlast] at hd'
  cases hd'
  rintro rfl
  rcases hd.title.name.mem_spelling (List.mem_of_getLast? hc) with hmem | hmem <;> contradiction

theorem exists_stands : ∃ start left right, hd.Stands start left right := by
  obtain ⟨before, left, right, after, hfront, hback, hcut⟩ := IsLine.of_append hd.front hd.back
  have hline := hcut.insert hd.not_newline_middle
  have htext : text.toList = before ++ (left ++ (hd.middle ++ right) ++ after) := by
    rw [hd.spelled, hfront, hback]
    simp only [middle, List.append_assoc]
  have hdrop : dropReturn (left ++ (hd.middle ++ right)) = left ++ (hd.middle ++ dropReturn right) := by
    rw [← List.append_assoc, dropReturn_append (hd.getLast?_middle left), List.append_assoc]
  obtain ⟨more, hmore⟩ := exists_dropReturn_append right
  rw [← htext] at hline
  refine ⟨byteLength before, left, dropReturn right, ⟨before, hfront, rfl⟩, ?_, ?_, ?_⟩
  · exact ⟨more ++ after, by rw [← List.append_assoc, ← hmore, hback]⟩
  · intro hmem
    refine hcut.oneLine (List.mem_append_right left ?_)
    rw [hmore]
    exact List.mem_append_left more hmem
  · intro offset hlo hhi
    have hplaced := hd.placed
    have hstop := hd.stop_eq
    rw [hfront, byteLength_append] at hplaced
    rw [← middle, hfront, byteLength_append, byteLength_append] at hstop
    refine ⟨before.count '\n' + 1, hline.lineCol_eq ?_ ?_, ?_, ?_⟩
    · omega
    · simp only [byteLength_append]
      omega
    · rw [hline.lineAt_eq rfl, hdrop]
    · rw [hline.offsetOf_eq rfl, hdrop, Nat.add_sub_cancel]
      simp only [byteLength_append]
      congr 1
      omega

variable {hd} {start offset : Nat} {left right : List Char} (h : hd.Stands start left right)
include h

theorem Stands.head?_right : ∀ c ∈ right.head?, c ∈ hd.back.head? := by
  obtain ⟨more, hmore⟩ := h.back
  intro c hc
  rw [hmore, List.head?_append, Option.mem_def.mp hc]
  rfl

theorem Stands.getLast?_left : ∀ c ∈ left.getLast?, c ∈ hd.front.getLast? := by
  obtain ⟨before, hbefore, _⟩ := h.front
  intro c hc
  rw [hbefore, List.getLast?_append, Option.mem_def.mp hc]
  rfl

theorem Stands.keyword_start : hd.keyword.start = start + byteLength left := by
  obtain ⟨before, hbefore, hstart⟩ := h.front
  rw [hd.placed, hbefore, byteLength_append, hstart]

/-- On the keyword the word is the name that it declares. -/
theorem Stands.ofLine_keyword (hpoint : ¬ hd.ReadsOn) (hlo : hd.keyword.start ≤ offset)
    (hhi : offset ≤ hd.keyword.stop) :
    ofLine (String.ofList (left ++ (hd.middle ++ right))) (offset - start) =
      ⟨some (lower hd.keyword.text), String.ofList hd.title.name.chars, false⟩ := by
  obtain ⟨c, cs, hkeyword, hc, hcs, hroutine, _⟩ := hd.exists_keyword
  have hword : ∀ d ∈ hd.keyword.text.toList, continuesWord d := by
    rw [hkeyword, List.forall_mem_cons]
    exact ⟨continuesWord_of_startsWord hc, hcs⟩
  have hline : (String.ofList (left ++ (hd.middle ++ right))).toList =
      left ++ (hd.keyword.text.toList ++ (hd.gap.chars ++ (hd.title.spelling ++ right))) := by
    rw [String.toList_ofList, middle]
    simp only [List.append_assoc]
  have hgap : ∀ d ∈ (hd.gap.chars ++ (hd.title.spelling ++ right)).head?, ¬ continuesWord d := by
    obtain ⟨b, bs, hb⟩ := List.exists_cons_of_ne_nil hd.spaced
    rw [hb]
    rintro d ⟨⟩ hd'
    exact not_isBlank_of_continuesWord hd' (hd.gap.blank _ (by rw [hb]; exact List.mem_cons_self))
  have hname : declaredName (hd.gap.chars ++ (hd.title.spelling ++ right)) = some hd.title.name.chars := by
    refine declaredName_title hd.spaced (fun hq d hd' => ?_) h.oneLine fun name htitle hahead => ?_
    · exact hd.not_goesOn_back hq d (h.head?_right d hd')
    · obtain ⟨more, hmore⟩ := h.back
      refine hpoint ⟨name, htitle, ?_⟩
      rw [hmore, ← List.append_assoc]
      exact hahead.append more
  have hstart := h.keyword_start
  have hstop : hd.keyword.stop = hd.keyword.start + hd.keyword.text.toList.length := by
    rw [Token.stop, byteLength_run hword]
  have hkeyword : isRoutineKeyword (String.ofList hd.keyword.text.toList) := by
    rw [String.ofList_toList]
    exact hroutine
  have hle : byteLength left ≤ offset - start := by omega
  have hge : offset - start ≤ byteLength left + hd.keyword.text.toList.length := by omega
  have hcursor := ofLine_eq_onWord hline hword (fun d hd' => hd.bounded d (h.getLast?_left d hd'))
    hgap hle hge
  rw [hcursor, onWord_declares hkeyword hname, String.ofList_toList]

/-- The keyword is the word before the name. -/
theorem Stands.ofLine_name {name : Identifier} (htitle : hd.title = .plain name)
    (hq : name.quoted = false) (hother : ¬ isRoutineKeyword (String.ofList name.chars))
    (hruns : ¬ hd.RunsInto) (hlo : hd.titleStart ≤ offset) (hhi : offset ≤ hd.stop) :
    ofLine (String.ofList (left ++ (hd.middle ++ right))) (offset - start) =
      ⟨some hd.keyword.text, String.ofList name.chars, false⟩ := by
  obtain ⟨c, cs, hkeyword, hc, hcs, _⟩ := hd.exists_keyword
  have hspelling : hd.title.spelling = name.chars := by
    rw [htitle, Title.spelling, Identifier.spelling, hq]
    exact List.append_nil _
  have hline : (String.ofList (left ++ (hd.middle ++ right))).toList =
      (left ++ (c :: cs ++ hd.gap.chars)) ++ (name.chars ++ right) := by
    rw [String.toList_ofList, middle, hspelling, hkeyword]
    simp only [List.append_assoc]
  have hgap : ∀ d ∈ (left ++ (c :: cs ++ hd.gap.chars)).getLast?, ¬ continuesWord d := by
    have hlast := List.getLast?_eq_some_getLast hd.spaced
    rw [← List.append_assoc, List.getLast?_append, hlast]
    rintro d ⟨⟩ hd'
    exact not_isBlank_of_continuesWord hd' (hd.gap.blank _ (List.getLast_mem hd.spaced))
  have hright : ∀ d ∈ right.head?, ¬ continuesWord d := fun d hd' hcontinues =>
    hd.not_goesOn_back (by rw [htitle]; exact hq) d (h.head?_right d hd') (goesOn_of_continuesWord hcontinues)
  have hqualifier := qualifierOf_word left hd.spaced hc hcs fun d hd' hstarts => by
    obtain ⟨before, hbefore, _⟩ := h.front
    refine hruns ⟨d, ?_, hstarts⟩
    rw [hbefore, List.reverse_append]
    exact (takeWhile_prefix_append _ _).subset hd'
  have hstart := h.keyword_start
  have hkeywordStop : hd.keyword.stop = hd.keyword.start + byteLength (c :: cs) := by
    rw [Token.stop, hkeyword]
  have hleft : byteLength (left ++ (c :: cs ++ hd.gap.chars)) = hd.titleStart - start := by
    rw [byteLength_append, byteLength_append, titleStart]
    omega
  have hlength := byteLength_run name.continues_chars
  rw [stop, hspelling] at hhi
  have hle : byteLength (left ++ (c :: cs ++ hd.gap.chars)) ≤ offset - start := by omega
  have hge : offset - start ≤ byteLength (left ++ (c :: cs ++ hd.gap.chars)) + name.chars.length := by
    omega
  have hcursor := ofLine_eq_onWord hline name.continues_chars hgap hright hle hge
  rw [hcursor, onWord_qualified hother hqualifier, ← hkeyword, String.ofList_toList]

end Line

end HeaderLine

end Cursor

namespace Outline

/-- The cursor at the position, on its line, is in declaration mode and finds the declaration `i`. -/
def Targets (text : String) (o : Outline) (i : o.Id) (offset : Nat) : Prop :=
  ∃ line cursor, lineAt text (o.position offset).1 = some line ∧
    offsetOf text (o.position offset).1 (o.position offset).2 = some offset ∧
    cursor = Cursor.ofLine line ((o.position offset).2 - 1) ∧ cursor.isDeclaration ∧
    cursor.currentWord = (o.get i).name ∧ o.declarationAt? cursor.currentWord offset = some i

theorem Targets.ofLine {text line : String} {o : Outline} {i : o.Id} {offset : Nat}
    (h : o.Targets text i offset) (hline : lineAt text (o.position offset).1 = some line) :
    (Cursor.ofLine line ((o.position offset).2 - 1)).isDeclaration ∧
      (Cursor.ofLine line ((o.position offset).2 - 1)).currentWord = (o.get i).name := by
  obtain ⟨line', cursor, hline', _, hcursor, hdeclares, hname, _⟩ := h
  obtain rfl : line = line' := Option.some.inj (hline.symm.trans hline')
  rw [hcursor] at hdeclares hname
  exact ⟨hdeclares, hname⟩

section Nearest
variable {o : Outline} {i : o.Id} {offset : Nat} {chars : List Char}

/-- Of ascending symbols the last one is the latest. -/
theorem foldl_latest (hascend : ∀ i j, i < j → (o.get i).start < (o.get j).start) (js : List o.Id)
    (hjs : js.Pairwise (· < ·)) : js.foldl o.latest none = js.getLast? := by
  induction js using List.reverseRecOn with
  | nil => rfl
  | append_singleton js j ih =>
    obtain ⟨hfirst, _, hlast⟩ := List.pairwise_append.mp hjs
    rw [List.foldl_append, ih hfirst, List.getLast?_concat, List.foldl_cons, List.foldl_nil]
    cases hk : js.getLast? with
    | none => rfl
    | some k =>
      have hlt := hascend k j (hlast k (List.mem_of_getLast? hk) j List.mem_cons_self)
      rw [latest, if_neg (Nat.not_lt_of_lt hlt)]

theorem WellFormed.declarationAt?_eq (h : o.WellFormed chars)
    (hkind : (o.get i).kind.isRoutine ∨ (o.get i).kind.isPackage) (hstart : (o.get i).start ≤ offset)
    (hlater : ∀ j, i < j → (o.get j).kind.isRoutine ∨ (o.get j).kind.isPackage →
      offset < (o.get j).start) : o.declarationAt? (o.get i).name offset = some i := by
  let declares (j : o.Id) : Bool := ((o.get j).kind.isRoutine || (o.get j).kind.isPackage) &&
    (o.get j).isNamed (o.get i).name && (o.get j).start ≤ offset
  have hascend : (o.everySymbol.filter declares).Pairwise (· < ·) := by
    rw [h.preorder]
    exact (ids_ascend (o := o)).sublist List.filter_sublist
  have hmem : i ∈ o.everySymbol.filter declares := by
    rw [h.preorder, List.mem_filter]
    refine ⟨List.mem_finRange i, ?_⟩
    simp only [declares, Bool.and_eq_true, Bool.or_eq_true, decide_eq_true_eq]
    exact ⟨⟨hkind, Text.sameName_refl _⟩, hstart⟩
  have hlast : ∀ j ∈ o.everySymbol.filter declares, ¬ i < j := by
    intro j hj hij
    have hdeclares := (List.mem_filter.mp hj).2
    simp only [declares, Bool.and_eq_true, Bool.or_eq_true, decide_eq_true_eq] at hdeclares
    exact absurd hdeclares.2 (Nat.not_le.mpr (hlater j hij hdeclares.1.1))
  show (o.everySymbol.filter declares).foldl o.latest none = some i
  rw [foldl_latest h.ascend _ hascend]
  obtain hnil | ⟨js, j, hjs⟩ := List.eq_nil_or_concat (o.everySymbol.filter declares)
  · rw [hnil] at hmem
    contradiction
  · rw [List.concat_eq_append] at hjs
    rw [hjs] at hmem hlast hascend ⊢
    rw [List.getLast?_concat]
    rcases List.mem_append.mp hmem with hi | hi
    · have hij := (List.pairwise_append.mp hascend).2.2 i hi j List.mem_cons_self
      exact absurd hij (hlast j (List.mem_append_right js List.mem_cons_self))
    · rw [List.mem_singleton.mp hi]

end Nearest

section Header
variable {file text : String} {i : (Outline.ofText file text).Id} {offset : Nat}
  (hd : Cursor.HeaderLine text ((Outline.ofText file text).get i))

theorem start_le_keyword : ((Outline.ofText file text).get i).start ≤ hd.keyword.start := by
  obtain ⟨first, us, hus⟩ := hd.exists_first
  have hfirst : ((Outline.ofText file text).get i).start ≤ first.start := by
    have hnot := List.head?_dropWhile_not
      (fun t : Token => decide (t.start < ((Outline.ofText file text).get i).start)) (Token.ofText text)
    rw [hus] at hnot
    simpa using hnot
  have hlaid := (Token.ofText_laid text).suffix (hus ▸ List.dropWhile_suffix _)
  have hkeyword := Header.skipCreate_suffix (first :: us)
  rw [← hus, hd.read, hus] at hkeyword
  rcases List.suffix_cons_iff.mp hkeyword with heq | hlater
  · rw [← (List.cons.inj heq).1] at hfirst
    exact hfirst
  · have := (hlaid.2.2.suffix hlater).1
    have := hlaid.2.1
    omega

/-- The first token of a header is a word. -/
theorem kind_of_ofUnit? {t : Token} {ts : List Token} {h : Header}
    (hread : Header.ofUnit? (t :: ts) = some h) : t.kind = .word := by
  by_contra hkind
  have hword (keyword : String) : t.isWord keyword = false := by
    rw [Token.isWord, beq_false_of_ne hkind, Bool.false_and]
  rw [Header.ofUnit?, Header.skipCreate, hword, if_neg Bool.false_ne_true, Header.unitKind.eq_def] at hread
  simp only [hword, Bool.false_eq_true, if_false, List.head?_cons, Option.bind_eq_bind,
    Option.bind_some, Option.bind_none, reduceCtorEq] at hread

theorem declarationAt?_header (hroutine : ((Outline.ofText file text).get i).kind.isRoutine)
    (hlo : hd.keyword.start ≤ offset)
    (hhi : offset < hd.stop ∨ hd.title.name.quoted = false ∧ offset = hd.stop) :
    ((Outline.ofText file text).get i).name = String.ofList hd.title.name.chars ∧
      (Outline.ofText file text).declarationAt? ((Outline.ofText file text).get i).name offset = some i := by
  have hheaded := ofText_headed file text
  have hheader {j : (Outline.ofText file text).Id}
      (hkind : ((Outline.ofText file text).get j).kind.isRoutine ∨
        ((Outline.ofText file text).get j).kind.isPackage) :=
    hheaded.headers j.val _ (getElem?_symbols j) (.inr (Symbol.Kind.hasCounterpart_of_declared hkind))
  obtain ⟨h, hread⟩ := hheader (.inl hroutine)
  obtain ⟨h', hread', hname, hrest⟩ := hd.exists_header
  obtain rfl : h = h' := Option.some.inj (hread.headed.read.symm.trans hread')
  refine ⟨hread.headed.name.trans hname, ?_⟩
  refine (ofText_wellFormed file text).declarationAt?_eq (.inl hroutine)
    (Nat.le_trans (start_le_keyword hd) hlo) fun j hij hkind => ?_
  obtain ⟨u, us, hus, hstart⟩ := hread.later j.val _ hij (getElem?_symbols j)
  rw [hrest] at hus
  have hstop := hd.stop_le hus
  rw [hstart]
  rcases hhi with hlt | ⟨hq, rfl⟩
  · omega
  · -- No keyword comes right behind an unquoted name.
    refine Nat.lt_of_le_of_ne hstop fun heq => ?_
    have hafter : u :: us <:+ Token.ofText text :=
      hus.trans ((List.suffix_append _ hd.rest).trans ((List.suffix_cons hd.keyword _).trans hd.suffix))
    obtain ⟨h', hread'⟩ := hheader hkind
    have hunit := hread'.headed.read
    rw [Symbol.header?, hstart, (Token.ofText_laid text).dropWhile_start hafter] at hunit
    obtain ⟨front, back, hstands⟩ := Token.exists_wordStands hafter (kind_of_ofUnit? hunit)
    obtain ⟨c, cs, htext, hc, _⟩ := hstands.starts
    have hback := hd.back_eq hstands.split (hstands.start.symm.trans heq.symm)
    refine hd.not_goesOn_back hq c ?_ (Cursor.goesOn_of_continuesWord (Cursor.continuesWord_of_startsWord hc))
    rw [← hback, htext]
    rfl

/-- A cursor in declaration mode on the name of the header finds its routine. -/
theorem targets_of_cursor (hroutine : ((Outline.ofText file text).get i).kind.isRoutine)
    {start : Nat} {left right : List Char} (hst : hd.Stands start left right)
    (hlo : hd.keyword.start ≤ offset)
    (hhi : offset < hd.stop ∨ hd.title.name.quoted = false ∧ offset = hd.stop) {previous : String}
    (hprevious : Cursor.isRoutineKeyword previous)
    (hcursor : Cursor.ofLine (String.ofList (left ++ (hd.middle ++ right))) (offset - start) =
      ⟨some previous, String.ofList hd.title.name.chars, false⟩) :
    (Outline.ofText file text).Targets text i offset := by
  obtain ⟨hname, hfound⟩ := declarationAt?_header hd hroutine hlo hhi
  obtain ⟨l, hposition, hline, hoffset⟩ := hst.position offset hlo (by omega)
  have hsame : (Outline.ofText file text).position offset = (l, offset - start + 1) := hposition
  rw [Targets, hsame]
  refine ⟨_, _, hline, hoffset, rfl, ?_⟩
  rw [Nat.add_sub_cancel, hcursor]
  exact ⟨hprevious, hname.symm, hname ▸ hfound⟩

/-- The cursor on a routine's header, or right behind it, targets that routine, whatever else the file
declares by its name: on the keyword, and on a name that is neither qualified nor quoted. -/
theorem ofText_targets (hroutine : ((Outline.ofText file text).get i).kind.isRoutine) :
    (¬ hd.ReadsOn → ∀ offset, hd.keyword.start ≤ offset → offset ≤ hd.keyword.stop →
      (Outline.ofText file text).Targets text i offset) ∧
    (¬ hd.RunsInto → ∀ name, hd.title = .plain name → name.quoted = false →
      ¬ Cursor.isRoutineKeyword (String.ofList name.chars) →
      ∀ offset, hd.titleStart ≤ offset → offset ≤ hd.stop →
        (Outline.ofText file text).Targets text i offset) := by
  obtain ⟨start, left, right, hst⟩ := hd.exists_stands
  obtain ⟨_, _, _, _, _, hroutineKeyword, hlower⟩ := hd.exists_keyword
  have hkeyword : hd.keyword.start ≤ hd.keyword.stop := Nat.le_add_right _ _
  have hgap : hd.keyword.stop < hd.titleStart :=
    Nat.lt_add_of_pos_right (byteLength_pos hd.spaced)
  have htitle : hd.titleStart ≤ hd.stop := Nat.le_add_right _ _
  constructor
  · intro hpoint offset hlo hhi
    exact targets_of_cursor hd hroutine hst hlo (by omega) hlower (hst.ofLine_keyword hpoint hlo hhi)
  · intro hruns name hplain hq hother offset hlo hhi
    have hcursor := hst.ofLine_name hplain hq hother hruns hlo hhi
    have hname : hd.title.name = name := by rw [hplain]; rfl
    rw [← hname] at hcursor hq
    refine targets_of_cursor hd hroutine hst (by omega) ?_ hroutineKeyword hcursor
    rcases Nat.lt_or_eq_of_le hhi with hlt | heq
    · exact .inl hlt
    · exact .inr ⟨hq, heq⟩

end Header

section Lines

open Cursor

def space : Gap := ⟨[' '], fun c hc => List.mem_singleton.mp hc ▸ rfl, by decide⟩

def letter (c : Char) (h : startsWord c) : Identifier := ⟨c, [], h, List.forall_mem_nil _, false⟩

theorem forall_mem_of_eq_some {p : Char → Prop} {o : Option Char} {c : Char} (ho : o = some c) (hc : p c) :
    ∀ d ∈ o, p d := by
  intro d hd
  rw [← Option.some.inj (ho.symm.trans hd)]
  exact hc

/-- A package with a procedure of its own name. -/
def namesakeText : String := "package body p is procedure p is begin null; end; end;"

abbrev namesakeOutline : Outline := .ofText "p.sql" namesakeText

def namesake : namesakeOutline.Id := ⟨1, by decide +kernel⟩

def namesakeLine : HeaderLine namesakeText (namesakeOutline.get namesake) where
  front := "package body p is ".toList
  keyword := ⟨.word, 18, "procedure", none⟩
  gap := space
  title := .plain (letter 'p' (by decide))
  back := " is begin null; end; end;".toList
  rest := (Token.ofText namesakeText).drop 6
  isKeyword := by decide
  placed := by decide +kernel
  spelled := by decide +kernel
  spaced := List.cons_ne_nil _ _
  read := by decide +kernel
  named := by decide +kernel
  bounded := forall_mem_of_eq_some (c := ' ') (by decide +kernel) (by decide)
  ends := fun _ => forall_mem_of_eq_some (c := ' ') (by decide +kernel) (by decide +kernel)

theorem ofText_targets_namesake : (namesakeOutline.get namesake).kind.isRoutine ∧
    namesakeOutline.Targets namesakeText namesake 18 ∧ namesakeOutline.Targets namesakeText namesake 28 := by
  have hroutine : (namesakeOutline.get namesake).kind.isRoutine := by decide +kernel
  obtain ⟨hkeyword, hname⟩ := ofText_targets namesakeLine hroutine
  refine ⟨hroutine, hkeyword ?_ 18 (by decide) (by decide),
    hname ?_ _ rfl rfl (by decide) 28 (by decide) (by decide)⟩
  · rintro ⟨_, ⟨⟩, hpoint⟩
    exact absurd hpoint.head?_trimStart (by decide +kernel)
  · have hfront : namesakeLine.front.reverse.takeWhile goesOn = [] := by decide +kernel
    rintro ⟨c, hc, _⟩
    rw [hfront] at hc
    exact absurd hc List.not_mem_nil

/-- The header's name ends before a literal, and the line reads on into the literal. -/
def literalText : String := "function a.n'x' is begin null; end;"

abbrev literalOutline : Outline := .ofText "p.sql" literalText

def beforeLiteral : literalOutline.Id := ⟨0, by decide +kernel⟩

def literalLine : HeaderLine literalText (literalOutline.get beforeLiteral) where
  front := []
  keyword := ⟨.word, 0, "function", none⟩
  gap := space
  title := .plain (letter 'a' (by decide))
  back := ".n'x' is begin null; end;".toList
  rest := (Token.ofText literalText).drop 2
  isKeyword := by decide
  placed := rfl
  spelled := by decide +kernel
  spaced := List.cons_ne_nil _ _
  read := by decide +kernel
  named := by decide +kernel
  bounded := fun _ hc => nomatch hc
  ends := fun _ => forall_mem_of_eq_some (c := '.') (by decide +kernel) (by decide +kernel)

/-- The keyword comes right behind a letter that only the line takes for a part of a word. -/
def accentedText : String := "aéfunction f is begin null; end;"

abbrev accentedOutline : Outline := .ofText "p.sql" accentedText

def behindAccent : accentedOutline.Id := ⟨0, by decide +kernel⟩

def accentedLine : HeaderLine accentedText (accentedOutline.get behindAccent) where
  front := "aé".toList
  keyword := ⟨.word, 3, "function", none⟩
  gap := space
  title := .plain (letter 'f' (by decide))
  back := " is begin null; end;".toList
  rest := (Token.ofText accentedText).drop 4
  isKeyword := by decide
  placed := by decide +kernel
  spelled := by decide +kernel
  spaced := List.cons_ne_nil _ _
  read := by decide +kernel
  named := by decide +kernel
  bounded := forall_mem_of_eq_some (c := 'é') (by decide +kernel) (by decide)
  ends := fun _ => forall_mem_of_eq_some (c := ' ') (by decide +kernel) (by decide +kernel)

theorem not_targets_literal : ¬ literalOutline.Targets literalText beforeLiteral 0 := by
  intro h
  have hline : lineAt literalText (literalOutline.position 0).1 = some literalText := by decide +kernel
  exact absurd (h.ofLine hline).2 (by decide +kernel)

theorem not_targets_accented : ¬ accentedOutline.Targets accentedText behindAccent 12 := by
  intro h
  have hline : lineAt accentedText (accentedOutline.position 12).1 = some accentedText := by decide +kernel
  exact absurd (h.ofLine hline).1 (by decide +kernel)

/-- Neither on the keyword nor on the name does the cursor always target the routine of the header. -/
theorem not_targets_everywhere :
    (¬ ∀ (file text : String) (i : (Outline.ofText file text).Id)
      (hd : HeaderLine text ((Outline.ofText file text).get i)),
      ((Outline.ofText file text).get i).kind.isRoutine → ∀ offset, hd.keyword.start ≤ offset →
        offset ≤ hd.keyword.stop → (Outline.ofText file text).Targets text i offset) ∧
    ¬ ∀ (file text : String) (i : (Outline.ofText file text).Id)
      (hd : HeaderLine text ((Outline.ofText file text).get i)),
      ((Outline.ofText file text).get i).kind.isRoutine → ∀ name, hd.title = .plain name →
        name.quoted = false → ¬ isRoutineKeyword (String.ofList name.chars) →
        ∀ offset, hd.titleStart ≤ offset → offset ≤ hd.stop →
          (Outline.ofText file text).Targets text i offset := by
  constructor <;> intro h
  · exact not_targets_literal (h _ _ _ literalLine (by decide +kernel) 0 (by decide) (by decide))
  · exact not_targets_accented
      (h _ _ _ accentedLine (by decide +kernel) _ rfl rfl (by decide) 12 (by decide) (by decide))

end Lines

end Outline

end PlsqlNav
