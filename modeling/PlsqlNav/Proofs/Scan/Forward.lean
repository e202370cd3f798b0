import Mathlib.Logic.Function.Iterate
import PlsqlNav.Proofs.Scan.Declared
import PlsqlNav.Proofs.Scan.Members
import PlsqlNav.Proofs.Scan.UpTo

/-! Scans go forward and stay where there is something to read. Whatever reads tokens leaves off at an
index of these, never before the one where it began, so that a run ends; and what is cut out of the
text lies between two of its characters. -/
namespace PlsqlNav

namespace Text

/-- A part of the text that can be cut out: it starts and stops between characters. -/
structure IsPart (cs : List Char) (start stop : Nat) : Prop where
  le : start ≤ stop
  start : IsBoundary cs start
  stop : IsBoundary cs stop

theorem isBoundary_byteLength (cs : List Char) : IsBoundary cs (byteLength cs) :=
  ⟨cs, [], by rw [List.append_nil], rfl⟩

end Text

namespace Token
variable {ts us vs : List Token} {t : Token} {i : Nat}

/-- `us` are the tokens `ts` from the index `i` on. This is one of theirs, or the one behind them. -/
structure LeftAt (ts : List Token) (i : Nat) (us : List Token) : Prop where
  le : i ≤ ts.length
  eq : us = ts.drop i

theorem leftAt_drop (h : i ≤ ts.length) : LeftAt ts i (ts.drop i) := ⟨h, rfl⟩

namespace LeftAt

theorem getElem? (h : LeftAt ts i (t :: us)) : ts[i]? = some t := by
  have hhead : (ts.drop i)[0]? = some t := by
    rw [← h.eq]
    rfl
  rwa [List.getElem?_drop, Nat.add_zero] at hhead

theorem later (h : LeftAt ts i us) (hs : vs <:+ us) : ∃ j, i ≤ j ∧ LeftAt ts j vs := by
  obtain ⟨front, rfl⟩ := hs
  have hlength := congrArg List.length h.eq
  have hle := h.le
  simp only [List.length_append, List.length_drop] at hlength
  refine ⟨i + front.length, Nat.le_add_right _ _, by omega, ?_⟩
  rw [← List.drop_drop, ← h.eq, List.drop_left]

theorem tail (h : LeftAt ts i (t :: us)) : LeftAt ts (i + 1) us := by
  have hi : i < ts.length := (List.getElem?_eq_some_iff.mp h.getElem?).1
  refine ⟨hi, ?_⟩
  rw [← List.drop_drop, ← h.eq]
  rfl

theorem further (h : LeftAt ts i (t :: us)) (hs : vs <:+ us) : ∃ j, i < j ∧ LeftAt ts j vs := by
  obtain ⟨j, hij, hj⟩ := h.tail.later hs
  exact ⟨j, hij, hj⟩

theorem shorter (h : LeftAt ts i us) (hs : vs <:+ us) (hlt : vs.length < us.length) :
    ∃ j, i < j ∧ LeftAt ts j vs := by
  obtain ⟨j, hij, hj⟩ := h.later hs
  refine ⟨j, Nat.lt_of_le_of_ne hij fun heq => ?_, hj⟩
  subst heq
  rw [h.eq, hj.eq] at hlt
  exact Nat.lt_irrefl _ hlt

end LeftAt

/-- A token stands in its text before all that comes after it. -/
theorem Laid.stop_le {text : List Char} {pos : Nat} (h : Laid pos (Text.byteLength text) (t :: ts))
    (hs : us <:+ ts) : t.stop ≤ Scan.startOf text us := by
  have hlaid := h.2.2.suffix hs
  cases us with
  | nil => exact hlaid
  | cons u us => exact hlaid.1

/-- The documentation of a token stands in the text where it says, unless it waited before the text. -/
theorem scan_documented (pos : Nat) (doc : Option Comment) (cs : List Char) :
    ∀ t ∈ scan pos doc cs, ∀ c ∈ t.doc, doc = some c ∨ ∃ front back,
      cs = front ++ (c.text.toList ++ back) ∧ c.start = pos + Text.byteLength front := by
  fun_induction scan pos doc cs with
  | case1 => simp
  | case2 pos doc c cs hblank ih =>
    intro t ht d hd
    obtain hdoc | ⟨front, back, hcs, hstart⟩ := ih t ht d hd
    · exact .inl hdoc
    · refine .inr ⟨c :: front, back, by rw [hcs, List.cons_append], ?_⟩
      rw [hstart, Text.byteLength, Nat.add_assoc]
  | case3 pos doc c cs hblank n lexeme next hread ih =>
    intro t ht d hd
    obtain hdoc | hspelled := ih t ht d hd
    · cases hdoc
      refine .inr ⟨[], cs.drop n, ?_, rfl⟩
      rw [String.toList_ofList, List.nil_append, List.cons_append, List.take_append_drop]
    · exact .inr (spelled_after c cs n hspelled)
  | case4 pos doc c cs hblank n lexeme next hread ih =>
    intro t ht d hd
    obtain hdoc | hspelled := ih t ht d hd
    · contradiction
    · exact .inr (spelled_after c cs n hspelled)
  | case5 pos doc c cs hblank n lexeme next kind hread ih =>
    intro t ht d hd
    rcases List.mem_cons.mp ht with rfl | ht
    · exact .inl hd
    · obtain hdoc | hspelled := ih t ht d hd
      · contradiction
      · exact .inr (spelled_after c cs n hspelled)

theorem exists_part_of_doc {text : String} {c : Comment} (ht : t ∈ ofText text)
    (hc : c ∈ t.doc) :
    ∃ start stop, Text.IsPart text.toList start stop ∧
      c.text = String.ofList (Text.slice start stop text.toList) := by
  obtain hnone | ⟨front, back, htext, _⟩ := scan_documented 0 none text.toList t ht c hc
  · contradiction
  · refine ⟨Text.byteLength front, Text.byteLength front + Text.byteLength c.text.toList,
      ⟨Nat.le_add_right _ _, ⟨front, _, htext, rfl⟩, ⟨front ++ c.text.toList, back, ?_, ?_⟩⟩, ?_⟩
    · rw [htext, List.append_assoc]
    · rw [Text.byteLength_append]
    · rw [htext, Text.slice_append, String.ofList_toList]

end Token

theorem Scan.isBoundary_startOf {text : String} {us : List Token} (hs : us <:+ Token.ofText text) :
    Text.IsBoundary text.toList (startOf text.toList us) := by
  cases us with
  | nil => exact Text.isBoundary_byteLength _
  | cons u us => exact Token.ofText_boundary text u (hs.subset List.mem_cons_self)

/-- A declaration is cut out from its first token to the one that stops it. -/
theorem Symbol.DeclaredIn.parts {text : String} {x : Symbol}
    (h : x.DeclaredIn text.toList (Token.ofText text)) :
    (∃ stop, Text.IsPart text.toList x.start stop ∧
      x.definition = Scan.definition text.toList x.start stop) ∧
    ∀ d ∈ x.doc, ∃ start stop, Text.IsPart text.toList start stop ∧
      d = String.ofList (Text.slice start stop text.toList) := by
  obtain ⟨lead, body, stop, hts, hx⟩ := h
  obtain ⟨t, ht, hstart, hdoc⟩ := hx.first
  obtain ⟨lead, rfl⟩ := List.head?_eq_some_iff.mp ht
  have hmem : t ∈ Token.ofText text := hts.subset List.mem_cons_self
  have hstop : stop <:+ lead ++ (body ++ stop) :=
    (List.suffix_append body stop).trans (List.suffix_append lead _)
  have hlaid := (Token.ofText_laid text).suffix hts
  have hle : t.start ≤ Scan.startOf text.toList stop :=
    Nat.le_trans (Nat.le_of_lt hlaid.2.1) (hlaid.stop_le hstop)
  refine ⟨⟨Scan.startOf text.toList stop, ⟨hstart ▸ hle, hstart ▸ Token.ofText_boundary text t hmem,
    Scan.isBoundary_startOf ((hstop.trans (List.suffix_cons t _)).trans hts)⟩, hx.definition⟩, ?_⟩
  intro d hd
  rw [hdoc] at hd
  obtain ⟨c, hc, rfl⟩ := Option.map_eq_some_iff.mp hd
  exact Token.exists_part_of_doc hmem hc

/-- A header that starts at the index `i`. What comes after its name is later. -/
structure Header.StartsAt (ts : List Token) (i : Nat) (h : Header) : Prop where
  first : ts[i]? = some h.first
  rest : ∃ j, i < j ∧ Token.LeftAt ts j h.rest

theorem Header.startsAt_of_ofUnit? {ts : List Token} {i : Nat} {h : Header}
    (hread : ofUnit? (ts.drop i) = some h) : h.StartsAt ts i := by
  obtain ⟨_, us, hdrop, hrest⟩ := ofUnit?_eq_some hread
  have hle : i ≤ ts.length := by
    by_contra hlt
    rw [List.drop_eq_nil_of_le (Nat.le_of_not_le hlt)] at hdrop
    contradiction
  have hleft : Token.LeftAt ts i (h.first :: us) := ⟨hle, hdrop.symm⟩
  exact ⟨hleft.getElem?, hleft.further hrest⟩

theorem Header.StartsAt.further {ts us : List Token} {i : Nat} {h : Header} (hstarts : h.StartsAt ts i)
    (hs : us <:+ h.rest) : ∃ j, i < j ∧ Token.LeftAt ts j us := by
  obtain ⟨k, hik, hk⟩ := hstarts.rest
  obtain ⟨j, hkj, hj⟩ := hk.later hs
  exact ⟨j, Nat.lt_of_lt_of_le hik hkj, hj⟩

namespace Scan

open Token (LeftAt)

variable {text : List Char} {ts us : List Token} {s s' : Scan} {scope : Scope}
  {outer : List Scope}

/-- What reads the tokens `ts`, and where it leaves off. -/
structure GoesForward (text : List Char) (ts : List Token) : Prop where
  header : ∀ i h, Header.ofUnit? (ts.drop i) = some h → h.StartsAt ts i
  headerEnd : ∀ i depth afterDollar, i ≤ ts.length →
    ∃ j, i ≤ j ∧ LeftAt ts j (Header.findEnd depth afterDollar (ts.drop i)).tokens
  unexpected : ∀ i t us, LeftAt ts i (t :: us) → ∃ j, i < j ∧ LeftAt ts j (Unexpected.skip t us)
  declaration : ∀ (s : Scan) scope kind i (h : Header), h.StartsAt ts i →
    ∃ j, i < j ∧ LeftAt ts j (s.declare text scope h.first kind h.name h.rest).rest
  block : ∀ (s : Scan) recording i (h : Header), h.StartsAt ts i →
    ∃ j, i < j ∧ LeftAt ts j (s.block text recording h).rest
  /-- A scope closes at or after the index where its end is looked for, and stops in the text where
  the tokens do. -/
  extent : ∀ (s : Scan) scope outer i afterDollar, i ≤ ts.length →
    let found := Extent.find 0 afterDollar (ts.drop i)
    let stop := (found.map Extent.stop).getD (Text.byteLength text)
    let closed := s.leaveAt text scope outer found
    (∃ j, i ≤ j ∧ LeftAt ts j closed.rest) ∧
      closed.symbols = (s.setStop scope.symbol stop).symbols ∧
        ((∀ t ∈ ts, t.stop ≤ Text.byteLength text) → stop ≤ Text.byteLength text)
  /-- Each member of a scope has a token at least. -/
  member : ∀ (s : Scan) scope outer i, s.scopes = scope :: outer → LeftAt ts i s.rest →
    ¬ endsMembers s.rest →
      (∃ j, i < j ∧ LeftAt ts j (s.member text).rest) ∧ (s.member text).scopes = s.scopes
  /-- The members go on to the word that ends them, or to the end of the text. -/
  members : ∀ (s : Scan) scope outer i, s.scopes = scope :: outer → LeftAt ts i s.rest →
    (∃ j, i ≤ j ∧ LeftAt ts j (s.members text).rest ∧
      (j = ts.length ∨ ∃ t, ts[j]? = some t ∧ t.isOneOf ["begin", "end", "create"])) ∧
      (s.members text).scopes = s.scopes
  /-- The members are what a block reads between its header and the step that closes it. -/
  parts : ∀ (s : Scan) recording h, s.block text recording h =
    if (s.enter text recording h).scopes.length ≤ s.scopes.length then s.enter text recording h
    else ((s.enter text recording h).members text).step text
  run : ((ofTokens ts).run text).isDone ∧
    ∃ n, n ≤ 2 * ts.length ∧ (ofTokens ts).run text = (step text)^[n] (ofTokens ts)

section Forward

theorem declare_suffix (first : Token) (kind : Symbol.Kind) (name : String) :
    (s.declare text scope first kind name us).rest <:+ us := tail_fromSemicolon_suffix us

theorem block_suffix (text : List Char) (recording : Bool) (hd : Header) (s : Scan) :
    (s.block text recording hd).rest <:+ hd.rest :=
  (closeTo_suffix text _ _).trans
    ((enter_suffix recording hd).trans (Header.findEnd_suffix 0 false hd.rest))

theorem leaveAt_symbols (e : Option Extent) : (s.leaveAt text scope outer e).symbols =
    (s.setStop scope.symbol ((e.map Extent.stop).getD (Text.byteLength text))).symbols := by
  cases e with
  | none => rfl
  | some e => rfl

theorem stop_le_of_find {inner n : Nat} {afterDollar : Bool} (hts : ∀ t ∈ ts, t.stop ≤ n)
    {e : Extent} (h : Extent.find inner afterDollar ts = some e) : e.stop ≤ n := by
  obtain ⟨front, last, rfl, hstop⟩ := Extent.find_eq_some h
  rw [hstop]
  exact hts last (List.mem_append_right front List.mem_cons_self)

theorem run_eq_iterate (text : List Char) (s : Scan) :
    ∃ n, n ≤ s.size ∧ s.run text = (step text)^[n] s := by
  fun_induction run text s with
  | case1 s => exact ⟨0, Nat.zero_le _, rfl⟩
  | case2 s _ hsize ih =>
    obtain ⟨n, hn, hrun⟩ := ih
    exact ⟨n + 1, Nat.lt_of_le_of_lt hn hsize, by rw [hrun, Function.iterate_succ_apply]⟩

theorem goesForward (text : List Char) (ts : List Token) : GoesForward text ts where
  header := fun _ _ hread => Header.startsAt_of_ofUnit? hread
  headerEnd := by
    intro i depth d hi
    exact (Token.leftAt_drop hi).later (Header.findEnd_suffix depth d _)
  unexpected := fun i t us h => h.further (Unexpected.skip_suffix t us)
  declaration := fun s scope kind i h hstarts => hstarts.further (declare_suffix _ kind _)
  block := fun s recording i h hstarts => hstarts.further (block_suffix text recording h s)
  extent := by
    intro s scope outer i d hi
    refine ⟨(Token.leftAt_drop hi).later (leaveAt_suffix fun x hx => find_suffix hx),
      leaveAt_symbols _, fun hts => ?_⟩
    cases he : Extent.find 0 d (ts.drop i) with
    | none => exact Nat.le_refl _
    | some e => exact stop_le_of_find (fun t ht => hts t (List.mem_of_mem_drop ht)) he
  member := by
    intro s scope outer i hs hleft hends
    exact ⟨hleft.shorter (member_suffix text s) (member_length hs hends), member_scopes hs hends⟩
  members := by
    intro s scope outer i hs hleft
    obtain ⟨hsuffix, hscopes, hends⟩ := members_keeps text
      (P := fun s' => s'.rest <:+ s.rest) (fun _ _ h => (member_suffix text _).trans h) hs
      (List.suffix_refl _)
    obtain ⟨j, hij, hj⟩ := hleft.later hsuffix
    refine ⟨⟨j, hij, hj, ?_⟩, hscopes⟩
    generalize (s.members text).rest = us at hj hends
    cases us with
    | nil =>
      left
      exact Nat.le_antisymm hj.le (List.drop_eq_nil_iff.mp hj.eq.symm)
    | cons t us => exact .inr ⟨t, hj.getElem?, hends⟩
  parts := fun s recording h => block_eq text recording h s
  run := by
    obtain ⟨n, hn, hrun⟩ := run_eq_iterate text (ofTokens ts)
    exact ⟨run_isDone text _, n, hn, hrun⟩

end Forward

section InText

/-- What has been cut out of a text is a part of it, and what has been noted are places in it. -/
structure InText (text : String) (s : Scan) : Prop where
  rest : ∃ j, LeftAt (Token.ofText text) j s.rest
  definition : ∀ x ∈ s.symbols, ∃ stop, Text.IsPart text.toList x.start stop ∧
    x.definition = Scan.definition text.toList x.start stop
  doc : ∀ x ∈ s.symbols, ∀ d ∈ x.doc, ∃ start stop, Text.IsPart text.toList start stop ∧
    d = String.ofList (Text.slice start stop text.toList)
  stop : ∀ x ∈ s.symbols, ∀ e ∈ x.stop, x.start < e ∧ e ≤ Text.byteLength text.toList
  scope : ∀ scope ∈ s.scopes, ∀ i ∈ scope.symbol, i < s.symbols.size

theorem Reaches.inText {text : String}
    (h : Reaches text.toList (ofTokens (Token.ofText text)) s) : s.InText text := by
  obtain ⟨pos, hread, hrecorded⟩ := h.sound (ofText_sound text)
  refine ⟨?_, fun x hx => (h.declares x hx).parts.1, fun x hx => (h.declares x hx).parts.2, ?_, ?_⟩
  · obtain ⟨j, _, hj⟩ := (Token.leftAt_drop (Nat.zero_le _)).later h.rest_suffix
    exact ⟨j, hj⟩
  · intro x hx e he
    obtain ⟨i, hi⟩ := Array.mem_iff_getElem?.mp hx
    obtain ⟨_, hlt, hle⟩ := (hrecorded.placed i x hi).stop e he
    exact ⟨hlt, Nat.le_trans hle hread.laid.le⟩
  · exact fun scope hscope i hi => hrecorded.opened.lt_size ⟨scope, hscope, hi⟩

end InText

/-- The tokens of a text, and all scans that a run of them comes to, lie in the text. -/
structure StaysInText (text : String) : Prop where
  tokens : ∀ t ∈ Token.ofText text, t.stop ≤ Text.byteLength text.toList
  scans : ∀ s, Reaches text.toList (ofTokens (Token.ofText text)) s → s.InText text

theorem staysInText (text : String) : StaysInText text where
  tokens := by
    intro t ht
    obtain ⟨front, back, hts⟩ := List.append_of_mem ht
    have hlaid := (Token.ofText_laid text).suffix ⟨front, hts.symm⟩
    exact hlaid.stop_le List.nil_suffix
  scans := fun _ h => h.inText

/-- Whatever tokens are scanned, each reader leaves off at one of their indices and never before the
one where it began; one that reads a declaration leaves off behind it. So every run ends, and in a
text it cuts out nothing that is not there. -/
theorem forward_inText :
    (∀ text ts, GoesForward text ts) ∧ ∀ text, StaysInText text :=
  ⟨goesForward, staysInText⟩

end Scan

end PlsqlNav
