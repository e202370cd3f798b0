import PlsqlNav.Proofs.Outline.Embedding
import PlsqlNav.Proofs.Outline.WellFormed
import PlsqlNav.Proofs.Scan.Correspondence

/-! Layout and letter case. Where the tokens of two texts are alike one by one, the outlines of the texts
are the same tree, and their symbols and issues stand at the same tokens. -/
namespace PlsqlNav

theorem Text.toLower_eq_quote_iff (c : Char) : c.toLower = '"' ↔ c = '"' := by
  by_cases hupper : c.val ≥ 'A'.val ∧ c.val ≤ 'Z'.val
  · have hval : c.toLower.val = c.val + 32 := congrArg Char.val (dif_pos hupper)
    constructor
    · intro hc
      rw [hc] at hval
      have hquote : '"'.val = 34 := rfl
      grind
    · rintro rfl
      contradiction
  · have hsame : c.toLower = c := dif_neg hupper
    rw [hsame]

theorem Text.lower_ofList (cs : List Char) :
    lower (String.ofList cs) = String.ofList (cs.map Char.toLower) := by
  rw [lower, String.toList_ofList]

namespace Token

instance (t u : Token) : Decidable (t.Alike u) :=
  decidable_of_iff (t.kind = u.kind ∧ Text.sameName t.text u.text)
    ⟨fun h => ⟨h.1, h.2⟩, fun h => ⟨h.kind, h.text⟩⟩

theorem Alike.name {t u : Token} (h : t.Alike u) : Text.sameName t.name u.name := by
  have htext := h.text
  rw [Text.sameName_iff, Text.lower, Text.lower, String.ofList_inj] at htext
  rw [Token.name, Token.name, ← h.kind]
  split
  · have hunquoted (cs : List Char) : (cs.filter (· ≠ '"')).map Char.toLower =
        (cs.map Char.toLower).filter (· ≠ '"') := by
      rw [List.filter_map]
      congr 2
      funext c
      simp only [Function.comp_apply, ne_eq, Text.toLower_eq_quote_iff]
    rw [Text.sameName_iff, Text.lower_ofList, Text.lower_ofList, hunquoted, hunquoted, htext]
  · exact h.text

/-- The tokens at the same place among those of two texts. -/
def Twins (a b : String) (t u : Token) : Prop :=
  ∃ k : Nat, (ofText a)[k]? = some t ∧ (ofText b)[k]? = some u

end Token

/-- Positions at the same token of two texts, or at the ends of the texts. -/
inductive SamePlace (a b : String) : Nat → Nat → Prop
  | start {t u} : Token.Twins a b t u → SamePlace a b t.start u.start
  | stop {t u} : Token.Twins a b t u → SamePlace a b t.stop u.stop
  | ends : SamePlace a b (Text.byteLength a.toList) (Text.byteLength b.toList)

/-- The same declaration in two texts, but for its definition and documentation. -/
structure SameSymbol (a b : String) (x y : Symbol) : Prop where
  kind : x.kind = y.kind
  level : x.level = y.level
  name : Text.sameName x.name y.name
  start : ∃ t u, Token.Twins a b t u ∧ x.start = t.start ∧ y.start = u.start
  stop : Option.Rel (SamePlace a b) x.stop y.stop

structure SameIssue (a b : String) (i j : Issue) : Prop where
  kind : i.kind = j.kind
  offset : SamePlace a b i.offset j.offset

/-- The same tree in two texts: symbols with the same number are the same declaration. -/
structure SameTree (a b : String) (o o' : Outline) : Prop where
  size : o.symbols.size = o'.symbols.size
  symbol : ∀ (i : o.Id) (j : o'.Id), i.val = j.val → SameSymbol a b (o.get i) (o'.get j)
  parent : ∀ (i : o.Id) (j : o'.Id), i.val = j.val →
    (o.parent? i).map Fin.val = (o'.parent? j).map Fin.val
  children : ∀ (i : o.Id) (j : o'.Id), i.val = j.val →
    (o.children i).map Fin.val = (o'.children j).map Fin.val
  issues : List.Forall₂ (SameIssue a b) o.issues o'.issues

/-- Two texts whose tokens are alike one by one. -/
def Correspondence.ofAlike (a b : String) : Correspondence a.toList b.toList where
  token t u := t.Alike u ∧ t.Twins a b u
  position := SamePlace a b
  name n m := Text.sameName n m
  symbol := SameSymbol a b
  alike h := h.1
  names h := h.1.name
  starts h := .start h.2
  stops h := .stop h.2
  ends := .ends
  declared _ htu _ hname hlevel := ⟨rfl, hlevel, hname, ⟨_, _, htu.2, rfl, rfl⟩, .none⟩
  stopped hxy hpq := { hxy with stop := .some hpq }

namespace Outline
variable {a b : String} {o o' : Outline}

/-- Parents and children follow from the levels. -/
theorem sameTree_of_symbols (rising : o.Rising) (rising' : o'.Rising)
    (hsymbols : List.Forall₂ (SameSymbol a b) o.symbols.toList o'.symbols.toList)
    (hissues : List.Forall₂ (SameIssue a b) o.issues o'.issues) : SameTree a b o o' := by
  have hsize : o.symbols.size = o'.symbols.size := hsymbols.length_eq
  have hsymbol (i : o.Id) (j : o'.Id) (hij : i.val = j.val) :
      SameSymbol a b (o.get i) (o'.get j) := by
    have hget := hsymbols.get i.isLt (hij ▸ j.isLt)
    simpa [get, hij] using hget
  have hcontains : o'.Contains o 0 := by
    refine ⟨by omega, fun i j hj => ?_, fun j hj => ?_⟩
    · exact (hsymbol i j (by omega)).level.symm
    · have := j.isLt
      omega
  have hembed (i : o.Id) (j : o'.Id) (hij : i.val = j.val) : j = hcontains.embed i :=
    Fin.ext (by rw [← hij]; exact (Nat.zero_add _).symm)
  refine ⟨hsize, hsymbol, fun i j hij => ?_, fun i j hij => ?_, hissues⟩
  · rw [hembed i j hij, hcontains.parent?_embed rising, Option.map_map]
    congr 1
    funext p
    exact (Nat.zero_add _).symm
  · rw [hembed i j hij, hcontains.children_embed rising' rising, List.map_map]
    congr 1
    funext c
    exact (Nat.zero_add _).symm

/-- The outline of a text depends on its tokens only, and not on the letter case of its words. -/
theorem ofText_sameTree (file file' a b : String)
    (h : List.Forall₂ Token.Alike (Token.ofText a) (Token.ofText b)) :
    SameTree a b (Outline.ofText file a) (Outline.ofText file' b) := by
  have htokens : List.Forall₂ (Correspondence.ofAlike a b).token (Token.ofText a) (Token.ofText b) := by
    rw [List.forall₂_iff_get] at h ⊢
    refine ⟨h.1, fun k ha hb => ⟨h.2 k ha hb, k, ?_, ?_⟩⟩
    · exact List.getElem?_eq_getElem ha
    · exact List.getElem?_eq_getElem hb
  have hstart : (Correspondence.ofAlike a b).Related [] [] (Scan.ofTokens (Token.ofText a))
      (Scan.ofTokens (Token.ofText b)) :=
    ⟨htokens, fun _ => rfl, rfl, ⟨[], rfl, .nil⟩, ⟨[], rfl, .nil⟩⟩
  obtain ⟨ys, hys, hxys⟩ := hstart.run.symbols
  obtain ⟨js, hjs, hijs⟩ := hstart.run.issues
  refine sameTree_of_symbols (ofText_rising file a) (ofText_rising file' b) ?_ ?_
  · show List.Forall₂ _ _ ((Scan.ofTokens (Token.ofText b)).run b.toList).symbols.toList
    rw [hys]
    exact hxys
  · show List.Forall₂ _ _ ((Scan.ofTokens (Token.ofText b)).run b.toList).issues.toList
    rw [hjs]
    exact hijs.imp fun i j hij => ⟨hij.1, hij.2⟩

/-- A package in two layouts, with a comment and with other letter case in one of them. -/
theorem ofText_sameTree_package :
    List.Forall₂ Token.Alike (Token.ofText "package p is n number; end p;")
        (Token.ofText "PACKAGE P -- p\nIS\n  N Number; END\tp ;") ∧
      SameTree "package p is n number; end p;" "PACKAGE P -- p\nIS\n  N Number; END\tp ;"
        (Outline.ofText "p.sql" "package p is n number; end p;")
        (Outline.ofText "p.sql" "PACKAGE P -- p\nIS\n  N Number; END\tp ;") := by
  have hsame : List.Forall₂ Token.Alike (Token.ofText "package p is n number; end p;")
      (Token.ofText "PACKAGE P -- p\nIS\n  N Number; END\tp ;") := by decide +kernel
  exact ⟨hsame, ofText_sameTree "p.sql" "p.sql" _ _ hsame⟩

end Outline

end PlsqlNav
