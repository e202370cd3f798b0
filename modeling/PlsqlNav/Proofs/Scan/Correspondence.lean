import PlsqlNav.Proofs.Scan.Alike

/-! Two scans side by side. Where the tokens of two texts correspond one by one, a scan of the one text
takes the same steps as a scan of the other, and what the two record corresponds as well. The second
scan may have recorded symbols and issues of an earlier part of its text before. -/
namespace PlsqlNav

/-- What it means for tokens, positions, names and symbols of two texts to correspond. -/
structure Correspondence (text text' : List Char) where
  token : Token → Token → Prop
  position : Nat → Nat → Prop
  name : String → String → Prop
  symbol : Symbol → Symbol → Prop
  alike {t u : Token} : token t u → t.Alike u
  names {t u : Token} : token t u → name t.name u.name
  starts {t u : Token} : token t u → position t.start u.start
  stops {t u : Token} : token t u → position t.stop u.stop
  ends : position (Text.byteLength text) (Text.byteLength text')
  declared {t u : Token} {ts us : List Token} {n m : String} {s s' : Scan} (kind : Symbol.Kind) :
    token t u → List.Forall₂ token ts us → name n m → s.scopes.length = s'.scopes.length →
      symbol (s.symbolOf text t kind n ts) (s'.symbolOf text' u kind m us)
  stopped {x y : Symbol} {p q : Nat} : symbol x y → position p q →
    symbol { x with stop := some p } { y with stop := some q }

namespace Correspondence
variable {text text' : List Char} (c : Correspondence text text')

def issue (i j : Issue) : Prop := i.kind = j.kind ∧ c.position i.offset j.offset

/-- The scope, with its symbol moved behind `n` others. -/
def behind (n : Nat) (scope : Scope) : Scope := { scope with symbol := scope.symbol.map (n + ·) }

/-- The second scan is where the first is, behind the symbols `base` and issues `past`. -/
structure Related (base : List Symbol) (past : List Issue) (s s' : Scan) : Prop where
  rest : List.Forall₂ c.token s.rest s'.rest
  /-- Outside all scopes no step asks for a dollar sign before its tokens. -/
  afterDollar : s.scopes ≠ [] → s.afterDollar = s'.afterDollar
  scopes : s'.scopes = s.scopes.map (behind base.length)
  symbols : ∃ ys, s'.symbols.toList = base ++ ys ∧ List.Forall₂ c.symbol s.symbols.toList ys
  issues : ∃ js, s'.issues.toList = past ++ js ∧ List.Forall₂ c.issue s.issues.toList js

variable {c} {base : List Symbol} {past : List Issue} {s s' : Scan} {t u : Token}
  {ts us : List Token}

@[simp] theorem behind_flavour (n : Nat) (scope : Scope) : (behind n scope).flavour = scope.flavour :=
  rfl

@[simp] theorem behind_isSome (n : Nat) (scope : Scope) :
    (behind n scope).symbol.isSome = scope.symbol.isSome := Option.isSome_map

theorem forall₂_modify {α β : Type} {P : α → β → Prop} {xs : List α} {ys : List β} {f : α → α}
    {g : β → β} (h : List.Forall₂ P xs ys) (hfg : ∀ {x y}, P x y → P (f x) (g y)) (i : Nat) :
    List.Forall₂ P (xs.modify i f) (ys.modify i g) := by
  induction h generalizing i with
  | nil =>
    rw [List.modify_nil, List.modify_nil]
    exact .nil
  | cons hxy h ih =>
    cases i with
    | zero => exact .cons (hfg hxy) h
    | succ i => exact .cons hxy (ih i)

theorem modify_append_right {α : Type} (xs ys : List α) (f : α → α) (i : Nat) :
    (xs ++ ys).modify (xs.length + i) f = xs ++ ys.modify i f := by
  induction xs with
  | nil => rw [List.nil_append, List.length_nil, Nat.zero_add, List.nil_append]
  | cons x xs ih =>
    rw [List.length_cons, Nat.add_right_comm, List.cons_append, List.modify_succ_cons, ih,
      List.cons_append]

namespace Related

theorem length (h : c.Related base past s s') : s.scopes.length = s'.scopes.length := by
  rw [h.scopes, List.length_map]

theorem size (h : c.Related base past s s') : s'.symbols.size = base.length + s.symbols.size := by
  obtain ⟨ys, hys, hxy⟩ := h.symbols
  rw [← s'.symbols.length_toList, hys, List.length_append, ← hxy.length_eq, s.symbols.length_toList]

theorem isEmpty (h : c.Related base past s s') : s.scopes.isEmpty = s'.scopes.isEmpty := by
  rw [h.scopes, List.isEmpty_map]

theorem goOn (h : c.Related base past s s') (hts : List.Forall₂ c.token ts us) (d : Bool) :
    c.Related base past (s.goOn ts d) (s'.goOn us d) :=
  ⟨hts, fun _ => rfl, h.scopes, h.symbols, h.issues⟩

theorem report (h : c.Related base past s s') (kind : Issue.Kind) {p q : Nat}
    (hpq : c.position p q) : c.Related base past (s.report kind p) (s'.report kind q) := by
  obtain ⟨js, hjs, hij⟩ := h.issues
  refine ⟨h.rest, h.afterDollar, h.scopes, h.symbols, js ++ [⟨q, kind⟩], ?_, ?_⟩
  · rw [Scan.report, Array.toList_push, hjs, List.append_assoc]
  · rw [Scan.report, Array.toList_push]
    exact List.rel_append hij (.cons ⟨rfl, hpq⟩ .nil)

theorem record (h : c.Related base past s s') (recording : Bool) {x y : Symbol}
    (hxy : c.symbol x y) :
    c.Related base past (s.record recording x) (s'.record recording y) := by
  cases recording with
  | false => exact h
  | true =>
    obtain ⟨ys, hys, hxys⟩ := h.symbols
    refine ⟨h.rest, h.afterDollar, h.scopes, ⟨ys ++ [y], ?_, ?_⟩, h.issues⟩
    · rw [Scan.record, if_pos rfl, Array.toList_push, hys, List.append_assoc]
    · rw [Scan.record, if_pos rfl, Array.toList_push]
      exact List.rel_append hxys (.cons hxy .nil)

theorem setStop (h : c.Related base past s s') (symbol : Option Nat) {p q : Nat}
    (hpq : c.position p q) :
    c.Related base past (s.setStop symbol p) (s'.setStop (symbol.map (base.length + ·)) q) := by
  cases symbol with
  | none => exact h
  | some i =>
    obtain ⟨ys, hys, hxys⟩ := h.symbols
    refine ⟨h.rest, h.afterDollar, h.scopes,
      ⟨ys.modify i fun x => { x with stop := some q }, ?_, ?_⟩, h.issues⟩
    · show (s'.symbols.modify (base.length + i) _).toList = _
      rw [Array.toList_modify, hys, modify_append_right]
    · show List.Forall₂ c.symbol (s.symbols.modify i _).toList _
      rw [Array.toList_modify]
      exact forall₂_modify hxys (fun hxy => c.stopped hxy hpq) i

theorem leave (h : c.Related base past s s') (hs : s.scopes ≠ []) (scope : Scope)
    {outer : List Scope} {p q : Nat} (hpq : c.position p q) : c.Related base past (s.leave scope outer p)
      (s'.leave (behind base.length scope) (outer.map (behind base.length)) q) := by
  have hstop := h.setStop scope.symbol hpq
  have hdollar : (s.setStop scope.symbol p).afterDollar =
      (s'.setStop (scope.symbol.map (base.length + ·)) q).afterDollar :=
    hstop.afterDollar (by rwa [Scan.setStop_scopes])
  exact ⟨hstop.rest, fun _ => hdollar, rfl, hstop.symbols, hstop.issues⟩

theorem stopOf {ts us : List Token} (h : List.Forall₂ c.token ts us) :
    c.position (Scan.stopOf text ts) (Scan.stopOf text' us) := by
  cases h with
  | nil => exact c.ends
  | cons htu _ => exact c.stops htu

theorem declare (h : c.Related base past s s') (scope : Scope) (kind : Symbol.Kind) {n m : String}
    (htu : c.token t u) (hnm : c.name n m) (hts : List.Forall₂ c.token ts us) :
    c.Related base past (s.declare text scope t kind n ts)
      (s'.declare text' (behind base.length scope) u kind m us) := by
  have hstop := Scan.fromSemicolon_alike c.alike hts
  have hrecord := h.record scope.symbol.isSome (c.declared kind htu hstop hnm h.length)
  rw [Scan.declare, Scan.declare, behind_isSome]
  exact hrecord.goOn (forall₂_tail hstop) false

theorem stepOver (h : c.Related base past s s') (htu : c.token t u)
    (hts : List.Forall₂ c.token ts us) :
    c.Related base past (s.stepOver t ts) (s'.stepOver u us) :=
  (h.report _ (c.starts htu)).goOn (Unexpected.skip_alike c.alike htu hts) false

theorem leaveAt (h : c.Related base past s s') (hs : s.scopes ≠ []) (scope : Scope)
    {outer : List Scope} {e f : Option Extent} (hef : Option.Rel (Extent.Corresponds c.token c.position) e f) :
    c.Related base past (s.leaveAt text scope outer e)
      (s'.leaveAt text' (behind base.length scope) (outer.map (behind base.length)) f) := by
  cases hef with
  | none => exact ((h.leave hs scope c.ends).goOn .nil false).report _ c.ends
  | some hef => exact (h.leave hs scope hef.stop).goOn hef.rest false

theorem enter (h : c.Related base past s s') (recording : Bool) {hd hd' : Header}
    (hhd : Header.Corresponds c.token c.name hd hd') :
    c.Related base past (s.enter text recording hd) (s'.enter text' recording hd') := by
  have hend := Header.findEnd_alike c.alike hhd.rest 0 false
  have hrecord (kind : Symbol.Kind) {ts us : List Token} (hts : List.Forall₂ c.token ts us) :=
    h.record recording (c.declared kind hhd.first hts hhd.name h.length)
  rw [Scan.enter, Scan.enter, ← h.isEmpty, ← hhd.kind]
  generalize Header.findEnd 0 false hd.rest = e at hend
  generalize Header.findEnd 0 false hd'.rest = e' at hend
  dsimp only
  cases hend with
  | semicolon hts => exact (hrecord _ hts).goOn (forall₂_tail hts) false
  | cut d hts =>
    dsimp only
    split
    · exact (hrecord _ hts).goOn hts d
    · exact ((hrecord _ hts).goOn hts d).report _ (c.starts hhd.first)
  | body hts =>
    have hafter := forall₂_tail hts
    have hopened := hrecord hd.kind hts
    have hsymbol : (if recording then some s'.symbols.size else none) =
        (if recording then some s.symbols.size else none).map (base.length + ·) := by
      rw [h.size]
      cases recording <;> rfl
    dsimp only
    rw [any_head_alike c.alike hafter fun htu => htu.isOneOf _, hsymbol]
    split
    · have hlast := Scan.fromSemicolon_alike c.alike hafter
      exact (hopened.setStop _ (stopOf hlast)).goOn (forall₂_tail hlast) false
    · exact ⟨hafter, fun _ => rfl, congrArg (_ :: ·) hopened.scopes, hopened.symbols, hopened.issues⟩

theorem stepIn (h : c.Related base past s s') (hs : s.scopes ≠ []) (scope : Scope)
    (outer : List Scope) :
    c.Related base past (s.stepIn text scope outer)
      (s'.stepIn text' (behind base.length scope) (outer.map (behind base.length))) := by
  have hrest := h.rest
  rw [Scan.stepIn, Scan.stepIn]
  generalize s.rest = ts at hrest
  generalize s'.rest = us at hrest
  cases hrest with
  | nil => exact (h.leave hs scope c.ends).report _ c.ends
  | @cons t u ts us htu hts =>
    have alike := c.alike htu
    have hover := h.stepOver htu hts
    dsimp only
    rw [alike.isPunct, alike.isName, alike.lead, ← h.afterDollar hs, behind_isSome, behind_flavour,
      List.length_map]
    split
    · exact h.goOn hts false
    split
    · exact hover
    split
    · exact h.leaveAt hs scope (Extent.find_alike c.alike c.stops 0 false hts)
    · exact h.leaveAt hs scope (Extent.find_alike c.alike c.stops 0 s.afterDollar (.cons htu hts))
    · exact (h.leave hs scope (c.starts htu)).report _ (c.starts htu)
    · exact h.goOn (forall₂_tail (Scan.fromSemicolon_alike c.alike hts)) false
    · next kind _ =>
      have hname := Header.qualifiedName_alike c.alike c.names hts
      generalize Header.qualifiedName ts = o at hname
      generalize Header.qualifiedName us = o' at hname
      cases hname with
      | none => exact hover
      | some hname =>
        dsimp only
        split
        · exact h.declare scope _ htu hname.1 hname.2
        · exact h.enter _ ⟨htu, rfl, hname.1, hname.2⟩
    · cases hts with
      | nil => exact hover
      | cons hvw hts =>
        dsimp only
        rw [(c.alike hvw).isName]
        split
        · exact h.declare scope _ htu (c.names hvw) hts
        · exact hover
    · rw [any_head_alike c.alike hts fun htu => htu.isWord "constant",
        any_head_alike c.alike hts fun htu => htu.isWord "exception"]
      exact h.declare scope _ htu (c.names htu) hts

theorem stepOut (h : c.Related base past s s') :
    c.Related base past (s.stepOut text) (s'.stepOut text') := by
  have hunit := Header.ofUnit?_alike c.alike c.names h.rest
  have hhead := any_head_alike c.alike h.rest fun htu => htu.isPunct '$'
  rw [Scan.stepOut, Scan.stepOut]
  generalize Header.ofUnit? s.rest = o at hunit
  generalize Header.ofUnit? s'.rest = o' at hunit
  cases hunit with
  | none =>
    dsimp only
    rw [hhead]
    exact h.goOn (forall₂_tail h.rest) _
  | some hhd => exact h.enter true hhd

theorem step (h : c.Related base past s s') :
    c.Related base past (s.step text) (s'.step text') := by
  rw [Scan.step, Scan.step, h.scopes]
  cases hs : s.scopes with
  | nil => exact h.stepOut
  | cons scope outer => exact h.stepIn (by rw [hs]; exact List.cons_ne_nil _ _) scope outer

theorem isDone (h : c.Related base past s s') : s.isDone = s'.isDone := by
  have hrest : s.rest.isEmpty = s'.rest.isEmpty := by
    have hrest := h.rest
    generalize s.rest = ts at hrest
    generalize s'.rest = us at hrest
    cases hrest <;> rfl
  rw [Scan.isDone, Scan.isDone, hrest, h.isEmpty]

theorem run (h : c.Related base past s s') : c.Related base past (s.run text) (s'.run text') := by
  fun_induction Scan.run text s generalizing s' with
  | case1 s hdone =>
    rw [Scan.run, dif_pos (by rw [← h.isDone, hdone])]
    exact h
  | case2 s hdone hsize ih =>
    rw [Scan.run.eq_def text' s', dif_neg (by rw [← h.isDone]; exact hdone)]
    exact ih h.step

end Related

end Correspondence

end PlsqlNav
