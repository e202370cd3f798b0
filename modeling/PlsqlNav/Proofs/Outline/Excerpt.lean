import PlsqlNav.Proofs.Outline.Concatenation
import PlsqlNav.Proofs.Scan.Declared
import PlsqlNav.Proofs.Token.Excerpt

/-! The definition of a symbol read by itself: it has the tokens that the declaration has in the file,
from its first token up to the one that stops it. -/
namespace PlsqlNav

namespace Token

/-- Tokens without the documentation before the first of them. -/
def undocumented : List Token → List Token
  | [] => []
  | t :: ts => { t with doc := none } :: ts

theorem scan_shift (n pos : Nat) (doc : Option Comment) (cs : List Char) :
    scan (pos + n) (doc.map fun c => { c with start := c.start + n }) cs =
      (scan pos doc cs).map (shift n) := by
  fun_induction scan pos doc cs with
  | case1 => rw [scan, List.map_nil]
  | case2 pos doc c cs hblank ih => rw [scan_blank hblank, Nat.add_right_comm, ih]
  | case3 pos doc c cs hblank k lexeme next hread ih =>
    rw [scan_documentation hblank hread, Nat.add_right_comm]
    exact ih
  | case4 pos doc c cs hblank k lexeme next hread ih =>
    rw [scan_comment hblank hread, Nat.add_right_comm]
    exact ih
  | case5 pos doc c cs hblank k lexeme next kind hread ih =>
    rw [scan_token hblank hread, Nat.add_right_comm, List.map_cons]
    exact congrArg _ ih

/-- A text that stands at `n` in another has its own tokens there. -/
theorem map_shift_ofText (n : Nat) (text : String) :
    (ofText text).map (shift n) = scan n none text.toList := by
  rw [ofText, ← scan_shift, Nat.zero_add]
  rfl

end Token

theorem Scan.slice_startOf {cs : List Char} {t : Token} {mid stop : List Token}
    (h : t :: (mid ++ stop) <:+ Token.scan 0 none cs) :
    ∃ front region back, cs = front ++ (region ++ back) ∧ Text.byteLength front = t.start ∧
      Text.slice t.start (startOf cs stop) cs = region ∧
        Token.scan t.start none region = { t with doc := none } :: mid := by
  obtain ⟨front, rest, rfl, hstart, hrest⟩ := Token.scan_from h
  rw [Nat.zero_add] at hstart
  cases stop with
  | nil =>
    refine ⟨front, rest, [], by rw [List.append_nil], hstart.symm, ?_, ?_⟩
    · have hslice := Text.slice_append front rest []
      rwa [List.append_nil, ← Text.byteLength_append, ← hstart] at hslice
    · rw [hrest, List.append_nil]
  | cons u us =>
    have hu : u :: us <:+ Token.scan t.start none rest := by
      rw [hrest]
      exact List.suffix_append ({ t with doc := none } :: mid) (u :: us)
    obtain ⟨region, back, rfl, hregion, -⟩ := Token.scan_from hu
    refine ⟨front, region, back, rfl, hstart.symm, ?_, ?_⟩
    · have hslice := Text.slice_append front region back
      rwa [← hstart, ← hregion] at hslice
    · have hwhole : Token.scan t.start none (region ++ back) =
          ({ t with doc := none } :: mid) ++ u :: us := hrest none
      exact Token.scan_region hwhole hregion

/-- The tokens that stop a header; a semicolon stops a statement. -/
def Token.stopsDefinition (t : Token) : Bool :=
  t.isPunct ';' || t.isOneOf ["is", "as"] || t.isOneOf Header.stopWords

namespace Symbol

theorem findEnd_stopsDefinition (depth : Nat) (afterDollar : Bool) (ts : List Token) :
    ∀ t ∈ (Header.findEnd depth afterDollar ts).tokens.head?, t.stopsDefinition := by
  fun_induction Header.findEnd depth afterDollar ts with
  | case1 =>
    intro t ht
    contradiction
  | case2 _ _ _ _ _ ih | case3 _ _ _ _ _ _ ih | case4 _ _ _ _ _ _ _ ih => exact ih
  | case5 _ _ t _ _ _ _ hstop | case6 _ _ t _ _ _ _ _ hstop | case7 _ _ t _ _ _ _ _ _ hstop =>
    rintro _ ⟨⟩
    rw [Token.stopsDefinition, hstop]
    simp only [Bool.or_true, Bool.true_or]
  | case8 _ _ _ _ _ _ _ _ _ _ ih => exact ih

theorem Stops.stopsDefinition {kind : Kind} {after stop : List Token} (h : Stops kind after stop) :
    ∀ t ∈ stop.head?, t.stopsDefinition := by
  cases h with
  | header => exact findEnd_stopsDefinition 0 false after
  | statement =>
    intro t ht
    have hsemicolon := List.head?_dropWhile_not (fun t : Token => !t.isPunct ';') after
    rw [← Scan.fromSemicolon, Option.mem_def.mp ht] at hsemicolon
    have hsemicolon : t.isPunct ';' := (Bool.not_eq_false' _).mp hsemicolon
    rw [Token.stopsDefinition, hsemicolon]
    rfl

/-- The definition of `x` in a file that has the tokens `lead`, `body` and `stop`. -/
structure Excerpt (text : String) (x : Symbol) (lead body stop : List Token) : Prop
    extends x.DeclaredBy text.toList lead body stop where
  inText : lead ++ (body ++ stop) <:+ Token.ofText text
  stopped : ∀ t ∈ stop.head?, t.stopsDefinition
  written : ∃ front back,
    text.toList = front ++ (x.definition.toList ++ back) ∧ Text.byteLength front = x.start
  tokens : (Token.ofText x.definition).map (Token.shift x.start) = Token.undocumented (lead ++ body)

theorem DeclaredBy.excerpt {text : String} {x : Symbol} {lead body stop : List Token}
    (h : x.DeclaredBy text.toList lead body stop) (hts : lead ++ (body ++ stop) <:+ Token.ofText text) :
    x.Excerpt text lead body stop := by
  obtain ⟨t, ht, hstart, _⟩ := h.first
  obtain ⟨us, rfl⟩ := List.head?_eq_some_iff.mp ht
  have hsuffix : t :: (us ++ body ++ stop) <:+ Token.scan 0 none text.toList := by
    rw [List.append_assoc]
    exact hts
  obtain ⟨front, region, back, htext, hfront, hslice, hregion⟩ := Scan.slice_startOf hsuffix
  obtain ⟨blanks, hblanks, hall⟩ := Text.trimEnd_append_blanks region
  have hdefinition : x.definition.toList = Text.trimEnd region := by
    rw [h.definition, Scan.definition, String.toList_ofList, hstart, hslice]
  have hwritten : ∃ front back,
      text.toList = front ++ (x.definition.toList ++ back) ∧ Text.byteLength front = x.start := by
    refine ⟨front, blanks ++ back, ?_, by rw [hfront, hstart]⟩
    rw [hdefinition, htext, ← List.append_assoc (Text.trimEnd region), ← hblanks]
  have htokens : (Token.ofText x.definition).map (Token.shift x.start) =
      { t with doc := none } :: (us ++ body) := by
    rw [Token.map_shift_ofText, hdefinition, hstart, ← Token.scan_append_blanks hall, ← hblanks, hregion]
  exact { h with
    inText := hts, stopped := h.stops.stopsDefinition, written := hwritten, tokens := htokens }

end Symbol

namespace Outline

/-- A definition begins where its symbol starts, and by itself has the tokens of the declaration. -/
theorem exists_excerpt (file text : String) (i : (ofText file text).Id) :
    ∃ lead body stop, ((ofText file text).get i).Excerpt text lead body stop := by
  have hrun := (Scan.reaches_run text.toList (Scan.ofTokens (Token.ofText text))).declares
  obtain ⟨lead, body, stop, hts, hx⟩ := hrun _ (Array.getElem_mem i.isLt)
  exact ⟨lead, body, stop, hx.excerpt hts⟩

end Outline

end PlsqlNav
