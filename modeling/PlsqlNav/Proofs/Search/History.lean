import Mathlib.Data.Set.Card
import PlsqlNav.Proofs.Files.Path
import PlsqlNav.Search.Cache

/-! Caches over their histories. As long as digests tell the texts of a history apart, a cache answers
as if every text were read anew, and gives the very same outline again as long as nothing has come
between. -/
namespace PlsqlNav

namespace DigestCache

/-- What is done with a cache. -/
inductive Use where
  | get (path : Path) (text : String)
  | retain (keep : Path → Bool)
  | clear

section History
variable {δ : Type} [DecidableEq δ] (digest : String → δ)

def use (c : DigestCache δ) : Use → DigestCache δ
  | .get path text => (c.get digest path text).2
  | .retain keep => c.retain keep
  | .clear => c.clear

/-- The cache after some uses, the earliest first. -/
def after (uses : List Use) : DigestCache δ := uses.foldl (use digest) empty

/-- The outline that a path and a text get after some uses. -/
def answer (uses : List Use) (path : Path) (text : String) : Kept :=
  ((after digest uses).get digest path text).1

theorem after_concat (uses : List Use) (x : Use) :
    after digest (uses ++ [x]) = use digest (after digest uses) x := by
  rw [after, List.foldl_append]
  rfl

end History

/-- How `path` is spelled in a cache that spells it as `held`, once it has been used. -/
def respell (path : Path) (held : Option Path) : Use → Option Path
  | .get q _ => if q.same path then some (held.getD q) else held
  | .retain keep => held.filter keep
  | .clear => none

/-- The spelling under which a cache has `path`: that of the get which inserted it and after which it
has not been removed. -/
def spelling (path : Path) (uses : List Use) : Option Path := uses.foldl (respell path) none

theorem spelling_concat (path : Path) (uses : List Use) (x : Use) :
    spelling path (uses ++ [x]) = respell path (spelling path uses) x := by
  rw [spelling, List.foldl_append]
  rfl

/-- A use that comes after `earlier` leaves `path` in the cache with `text`. -/
def Leaves (path : Path) (text : String) (earlier : List Use) : Use → Prop
  | .get q u => q.same path → u = text
  | .retain keep => ∀ s ∈ spelling path earlier, keep s
  | .clear => False

/-- None of the later uses gets `path` with another text, rejects it, or clears the cache. -/
def Undisturbed (path : Path) (text : String) (earlier : List Use) : List Use → Prop
  | [] => True
  | x :: later => Leaves path text earlier x ∧ Undisturbed path text (earlier ++ [x]) later

section Entries
variable {δ : Type}

/-- What an entry is about. -/
def Entry.name (e : Entry δ) : List Path.Component := e.path.components

/-- The entry for a path. -/
def entryOf (path : Path) (es : List (Entry δ)) : Option (Entry δ) := es.find? fun e => e.path.same path

theorem entryOf_cons (path : Path) (e : Entry δ) (es : List (Entry δ)) :
    entryOf path (e :: es) = if e.path.same path then some e else entryOf path es := by
  rw [entryOf, List.find?_cons]
  split <;> simp_all [entryOf]

theorem entryOf_same {p q : Path} (h : p.same q) (es : List (Entry δ)) : entryOf p es = entryOf q es := by
  have hsame (e : Entry δ) : e.path.same p = e.path.same q := by
    rw [Path.same, Path.same, Path.same_iff.mp h]
  rw [entryOf, entryOf, funext hsame]

/-- The put entry takes the place of the one for its path, and its spelling. -/
theorem entryOf_put (path : Path) (entry : Entry δ) (es : List (Entry δ)) :
    entryOf path (put entry es) =
      if entry.path.same path then
        some { entry with path := ((entryOf path es).map Entry.path).getD entry.path }
      else entryOf path es := by
  induction es with
  | nil =>
    rw [put, entryOf_cons]
    rfl
  | cons e es ih =>
    rw [put]
    split
    · next h =>
      have hsame : e.path.same path = entry.path.same path := by
        rw [Path.same, Path.same, Path.same_iff.mp h]
      rw [entryOf_cons, entryOf_cons, hsame]
      split
      · rfl
      · rfl
    · next h =>
      rw [entryOf_cons, entryOf_cons, ih]
      split
      · next he =>
        rw [if_neg]
        intro hentry
        exact h (Path.same_iff.mpr ((Path.same_iff.mp he).trans (Path.same_iff.mp hentry).symm))
      · rfl

theorem put_names (entry : Entry δ) (es : List (Entry δ)) : (put entry es).map Entry.name =
    if entry.name ∈ es.map Entry.name then es.map Entry.name else es.map Entry.name ++ [entry.name] := by
  induction es with
  | nil => rfl
  | cons e es ih =>
    rw [put]
    split
    · next h =>
      have hname : entry.name = e.name := (Path.same_iff.mp h).symm
      rw [if_pos (hname ▸ List.mem_cons_self)]
      rfl
    · next h =>
      have hname : entry.name ≠ e.name := fun hname => h (Path.same_iff.mpr hname.symm)
      simp only [List.map_cons, ih, List.mem_cons, or_iff_right hname]
      split <;> rfl

theorem entryOf_isSome {path : Path} {es : List (Entry δ)} :
    (entryOf path es).isSome ↔ path.components ∈ es.map Entry.name := by
  rw [entryOf, List.find?_isSome, List.mem_map]
  exact exists_congr fun e => and_congr_right fun _ => Path.same_iff

/-- Where each path has one entry, dropping entries drops that of a path or keeps it. -/
theorem entryOf_filter {es : List (Entry δ)} (h : (es.map Entry.name).Nodup) (path : Path)
    (keep : Path → Bool) : entryOf path (es.filter fun e => keep e.path) =
      (entryOf path es).filter fun e => keep e.path := by
  induction es with
  | nil => rfl
  | cons e es ih =>
    rw [List.map_cons, List.nodup_cons] at h
    rw [entryOf_cons]
    split
    · next he =>
      have hnone : entryOf path es = none := by
        rw [← Option.not_isSome_iff_eq_none, entryOf_isSome, ← Path.same_iff.mp he]
        exact h.1
      rw [List.filter_cons, Option.filter_some]
      split
      · rw [entryOf_cons, if_pos he]
      · rw [ih h.2, hnone]
        rfl
    · next he =>
      rw [← ih h.2, List.filter_cons]
      split
      · rw [entryOf_cons, if_neg he]
      · rfl

end Entries

section Faithful
variable {δ : Type} {digest : String → δ} {c : DigestCache δ} {uses : List Use} {path q : Path}
  {text u : String} {e : Entry δ}

/-- An entry comes from a get of its path, and has what was read then. -/
def Read (digest : String → δ) (uses : List Use) (e : Entry δ) : Prop :=
  ∃ q text, Use.get q text ∈ uses ∧ q.same e.path ∧ e.digest = digest text ∧
    e.kept.outline = Outline.ofText q.text text

/-- What the entries of a cache are after some uses. -/
structure Faithful (digest : String → δ) (uses : List Use) (c : DigestCache δ) : Prop where
  distinct : (c.entries.map Entry.name).Nodup
  spelled : ∀ path, spelling path uses = (c.find? path).map Entry.path
  source : ∀ path, ∀ e ∈ c.find? path, Read digest uses e
  fresh : ∀ path, ∀ e ∈ c.find? path, e.kept.reading < c.readings
  apart : ∀ path q, ∀ e ∈ c.find? path, ∀ e' ∈ c.find? q, e.kept.reading = e'.kept.reading → path.same q

/-- What a get reads, where the cache has not got it. -/
def newEntry (digest : String → δ) (c : DigestCache δ) (path : Path) (text : String) : Entry δ :=
  ⟨path, digest text, ⟨Outline.ofText path.text text, c.readings⟩⟩

theorem find?_put (c : DigestCache δ) (path q : Path) (text : String) :
    find? ⟨put (newEntry digest c q text) c.entries, c.readings + 1⟩ path =
      if q.same path then
        some { newEntry digest c q text with path := ((c.find? path).map Entry.path).getD q }
      else c.find? path :=
  entryOf_put path (newEntry digest c q text) c.entries

def Misses (digest : String → δ) (c : DigestCache δ) (path : Path) (text : String) : Prop :=
  ∀ e ∈ c.find? path, e.digest ≠ digest text

/-- A get finds what it wants or reads it. -/
theorem hit_or_misses (digest : String → δ) (c : DigestCache δ) (path : Path) (text : String) :
    (∃ e, c.find? path = some e ∧ e.digest = digest text) ∨ Misses digest c path text := by
  by_cases h : ∃ e, c.find? path = some e ∧ e.digest = digest text
  · exact .inl h
  · exact .inr fun e he hd => h ⟨e, he, hd⟩

theorem find?_same (h : c.find? path = some e) : e.path.same path := by
  rw [find?] at h
  have hsame := List.find?_some h
  exact hsame

theorem Read.mono (h : Read digest uses e) (x : Use) : Read digest (uses ++ [x]) e := by
  obtain ⟨q, text, hget, hread⟩ := h
  exact ⟨q, text, List.mem_append_left _ hget, hread⟩

theorem Faithful.hit (h : Faithful digest uses c) (he : c.find? q = some e) (u : String) :
    Faithful digest (uses ++ [.get q u]) c where
  distinct := h.distinct
  spelled path := by
    rw [spelling_concat, respell, h.spelled]
    split
    · next hq =>
      have hsame : c.find? path = c.find? q := (entryOf_same hq c.entries).symm
      rw [hsame, he]
      rfl
    · rfl
  source path e he := (h.source path e he).mono _
  fresh := h.fresh
  apart := h.apart

theorem Faithful.put (h : Faithful digest uses c) (q : Path) (u : String) :
    Faithful digest (uses ++ [.get q u])
      ⟨put (newEntry digest c q u) c.entries, c.readings + 1⟩ where
  distinct := by
    rw [put_names]
    split
    · exact h.distinct
    · next hnew => exact List.nodup_append_comm.mp (List.nodup_cons.mpr ⟨hnew, h.distinct⟩)
  spelled path := by
    rw [spelling_concat, respell, h.spelled, find?_put]
    split
    · rfl
    · rfl
  source path e he := by
    rw [find?_put] at he
    split at he
    · next hq =>
      cases he
      refine ⟨q, u, List.mem_append_right _ List.mem_cons_self, ?_, rfl, rfl⟩
      cases hpath : c.find? path with
      | none => exact Path.same_iff.mpr rfl
      | some e =>
        have he := Path.same_iff.mp (find?_same hpath)
        exact Path.same_iff.mpr ((Path.same_iff.mp hq).trans he.symm)
    · exact (h.source path e he).mono _
  fresh path e he := by
    rw [find?_put] at he
    split at he
    · cases he
      exact Nat.lt_succ_self _
    · exact Nat.lt_succ_of_lt (h.fresh path e he)
  apart path path' e he e' he' hreading := by
    rw [find?_put] at he he'
    split at he
    · next hq =>
      split at he'
      · next hq' => exact Path.same_iff.mpr ((Path.same_iff.mp hq).symm.trans (Path.same_iff.mp hq'))
      · cases he
        exact absurd hreading.symm (Nat.ne_of_lt (h.fresh path' e' he'))
    · split at he'
      · cases he'
        exact absurd hreading (Nat.ne_of_lt (h.fresh path e he))
      · exact h.apart path path' e he e' he' hreading

theorem Faithful.find?_retain (h : Faithful digest uses c) (keep : Path → Bool) (path : Path) :
    (c.retain keep).find? path = (c.find? path).filter fun e => keep e.path :=
  entryOf_filter h.distinct path keep

theorem Faithful.find?_of_retain (h : Faithful digest uses c) {keep : Path → Bool}
    (he : (c.retain keep).find? path = some e) : c.find? path = some e ∧ keep e.path := by
  rw [h.find?_retain] at he
  exact Option.filter_eq_some_iff.mp he

theorem Faithful.retain (h : Faithful digest uses c) (keep : Path → Bool) :
    Faithful digest (uses ++ [.retain keep]) (c.retain keep) where
  distinct := h.distinct.sublist (List.filter_sublist.map _)
  spelled path := by
    rw [spelling_concat, respell, h.spelled, h.find?_retain, Option.filter_map]
    rfl
  source path e he := (h.source path e (h.find?_of_retain he).1).mono _
  fresh path e he := h.fresh path e (h.find?_of_retain he).1
  apart path path' e he e' he' :=
    h.apart path path' e (h.find?_of_retain he).1 e' (h.find?_of_retain he').1

theorem clear_faithful (digest : String → δ) (uses : List Use) (c : DigestCache δ) :
    Faithful digest (uses ++ [.clear]) c.clear where
  distinct := List.nodup_nil
  spelled path := by
    rw [spelling_concat]
    rfl
  source := nofun
  fresh := nofun
  apart := nofun

theorem Faithful.size (hc : Faithful digest uses c) : c.size =
    {name | ∃ path : Path, path.components = name ∧ (spelling path uses).isSome}.ncard := by
  have hnames : {name | ∃ path : Path, path.components = name ∧ (spelling path uses).isSome} =
      ↑(c.entries.map Entry.name).toFinset := by
    ext name
    rw [Set.mem_ofPred_eq, List.coe_toFinset, Set.mem_ofPred_eq]
    have hheld (path : Path) : (spelling path uses).isSome ↔
        path.components ∈ c.entries.map Entry.name := by
      rw [hc.spelled, Option.isSome_map, ← entryOf_isSome]
      rfl
    constructor
    · rintro ⟨path, rfl, hpath⟩
      exact (hheld path).mp hpath
    · intro hname
      obtain ⟨e, he, rfl⟩ := List.mem_map.mp hname
      exact ⟨e.path, rfl, (hheld e.path).mpr hname⟩
  rw [hnames, Set.ncard_coe_finset, List.toFinset_card_of_nodup hc.distinct, List.length_map]
  rfl

variable [DecidableEq δ]

theorem get_hit (he : c.find? path = some e) (hd : e.digest = digest text) :
    c.get digest path text = (e.kept, c) := by
  rw [get, he]
  exact if_pos hd

theorem get_miss (h : Misses digest c path text) : c.get digest path text =
    ((newEntry digest c path text).kept,
      ⟨put (newEntry digest c path text) c.entries, c.readings + 1⟩) := by
  rw [get]
  split
  · next e he => exact if_neg (h e he)
  · rfl

theorem Faithful.use (h : Faithful digest uses c) (x : Use) :
    Faithful digest (uses ++ [x]) (use digest c x) := by
  cases x with
  | get q u =>
    rw [DigestCache.use]
    obtain ⟨e, he, hd⟩ | hmiss := hit_or_misses digest c q u
    · rw [get_hit he hd]
      exact h.hit he u
    · rw [get_miss hmiss]
      exact h.put q u
  | retain keep => exact h.retain keep
  | clear => exact clear_faithful digest uses c

theorem after_faithful (digest : String → δ) (uses : List Use) :
    Faithful digest uses (after digest uses) := by
  induction uses using List.reverseRecOn with
  | nil =>
    exact ⟨List.nodup_nil, fun _ => rfl, nofun, nofun, nofun⟩
  | append_singleton uses x ih =>
    rw [after_concat]
    exact ih.use x

/-- A cache has the outline with the number `r` for a path and the digest `d`. -/
def Holds (c : DigestCache δ) (path : Path) (d : δ) (r : Nat) : Prop :=
  ∃ e, c.find? path = some e ∧ e.digest = d ∧ e.kept.reading = r

/-- The outline with the number `r` has been read and is in the cache no more. -/
def Gone (c : DigestCache δ) (r : Nat) : Prop :=
  r < c.readings ∧ ∀ path, ∀ e ∈ c.find? path, e.kept.reading ≠ r

theorem get_holds (c : DigestCache δ) (path : Path) (text : String) :
    Holds (use digest c (.get path text)) path (digest text) (c.get digest path text).1.reading := by
  rw [use]
  obtain ⟨e, he, hd⟩ | hmiss := hit_or_misses digest c path text
  · rw [get_hit he hd]
    exact ⟨e, he, hd, rfl⟩
  · rw [get_miss hmiss]
    exact ⟨_, (find?_put c path path text).trans (if_pos (Path.same_iff.mpr rfl)), rfl, rfl⟩

theorem Gone.remains {r : Nat} (h : Gone c r) (hc : Faithful digest uses c) (x : Use) :
    Gone (use digest c x) r := by
  obtain ⟨hlt, hno⟩ := h
  cases x with
  | get q u =>
    rw [use]
    obtain ⟨e, he, hd⟩ | hmiss := hit_or_misses digest c q u
    · rw [get_hit he hd]
      exact ⟨hlt, hno⟩
    · rw [get_miss hmiss]
      refine ⟨Nat.lt_succ_of_lt hlt, fun path e he => ?_⟩
      rw [find?_put] at he
      split at he
      · cases he
        exact Nat.ne_of_gt hlt
      · exact hno path e he
  | retain keep => exact ⟨hlt, fun path e he => hno path e (hc.find?_of_retain he).1⟩
  | clear => exact ⟨hlt, nofun⟩

/-- A use that leaves a path where it is leaves it the same outline. -/
theorem Holds.remains {r : Nat} (h : Holds c path (digest text) r) (hc : Faithful digest uses c)
    {x : Use} (hx : Leaves path text uses x) : Holds (use digest c x) path (digest text) r := by
  obtain ⟨e, he, hd, hr⟩ := h
  cases x with
  | get q u =>
    rw [use]
    obtain ⟨e', he', hd'⟩ | hmiss := hit_or_misses digest c q u
    · rw [get_hit he' hd']
      exact ⟨e, he, hd, hr⟩
    · rw [get_miss hmiss]
      refine ⟨e, ?_, hd, hr⟩
      rw [find?_put, if_neg, he]
      intro hq
      have hsame : c.find? q = some e := (entryOf_same hq c.entries).trans he
      exact hmiss e hsame (by rw [hd, hx hq])
  | retain keep =>
    refine ⟨e, ?_, hd, hr⟩
    have hkeep : keep e.path := by
      refine hx e.path ?_
      rw [hc.spelled, he]
      rfl
    show (c.retain keep).find? path = some e
    rw [hc.find?_retain, he, Option.filter_some, if_pos hkeep]
  | clear => contradiction

/-- A use that does not leave a path where it is removes its outline. -/
theorem Holds.gone {r : Nat} (h : Holds c path (digest text) r) (hc : Faithful digest uses c) {x : Use}
    (hdigest : ∀ q u, x = .get q u → digest u = digest text → u = text)
    (hx : ¬ Leaves path text uses x) : Gone (use digest c x) r := by
  obtain ⟨e, he, hd, rfl⟩ := h
  have hlt := hc.fresh path e he
  cases x with
  | get q u =>
    obtain ⟨hq, hu⟩ := Classical.not_imp.mp hx
    have hsame : c.find? q = some e := (entryOf_same hq c.entries).trans he
    -- The text has changed, so that it is read anew under another number.
    have hmiss : Misses digest c q u := by
      intro e' he' hd'
      rw [hsame] at he'
      cases he'
      exact hu (hdigest q u rfl (hd'.symm.trans hd))
    rw [use, get_miss hmiss]
    refine ⟨Nat.lt_succ_of_lt hlt, fun path' e' he' => ?_⟩
    rw [find?_put] at he'
    split at he'
    · cases he'
      exact Nat.ne_of_gt hlt
    · next hother =>
      intro hreading
      have hpath := Path.same_iff.mp (hc.apart path' path e' he' e he hreading)
      exact hother (Path.same_iff.mpr ((Path.same_iff.mp hq).trans hpath.symm))
  | retain keep =>
    obtain ⟨s, hs⟩ := not_forall.mp hx
    obtain ⟨hs, hkeep⟩ := Classical.not_imp.mp hs
    rw [hc.spelled, he] at hs
    cases hs
    refine ⟨hlt, fun path' e' he' hreading => ?_⟩
    obtain ⟨he', hkept⟩ := hc.find?_of_retain he'
    have hsame : c.find? path' = c.find? path :=
      entryOf_same (hc.apart path' path e' he' e he hreading) c.entries
    rw [hsame, he] at he'
    cases he'
    exact hkeep hkept
  | clear => exact ⟨hlt, nofun⟩

theorem Gone.after {r : Nat} (h : Gone (after digest uses) r) (later : List Use) :
    Gone (DigestCache.after digest (uses ++ later)) r := by
  induction later generalizing uses with
  | nil => rwa [List.append_nil]
  | cons x later ih =>
    rw [List.append_cons]
    apply ih
    rw [after_concat]
    exact h.remains (after_faithful digest uses) x

/-- After later uses the outline of a path is still there, or is gone for good. -/
theorem holds_or_gone {r : Nat} (later : List Use)
    (hdigest : ∀ q u, .get q u ∈ later → digest u = digest text → u = text)
    (h : Holds (after digest uses) path (digest text) r) :
    (Undisturbed path text uses later ∧ Holds (after digest (uses ++ later)) path (digest text) r) ∨
      (¬ Undisturbed path text uses later ∧ Gone (after digest (uses ++ later)) r) := by
  induction later generalizing uses with
  | nil => exact .inl ⟨trivial, by rwa [List.append_nil]⟩
  | cons x later ih =>
    rw [List.append_cons, Undisturbed]
    have hfaithful := after_faithful digest uses
    by_cases hx : Leaves path text uses x
    · have hnext := h.remains hfaithful hx
      rw [← after_concat] at hnext
      have hlater := ih (fun q u hget => hdigest q u (List.mem_cons_of_mem _ hget)) hnext
      rwa [and_iff_right hx]
    · have hgone := h.gone hfaithful (fun q u hq => hdigest q u (hq ▸ List.mem_cons_self)) hx
      rw [← after_concat] at hgone
      exact .inr ⟨fun hall => hx hall.1, hgone.after later⟩

theorem Holds.reading_get {r : Nat} {d : δ} (h : Holds c path d r) (hc : Faithful digest uses c) :
    r = (c.get digest q u).1.reading ↔ path.same q ∧ d = digest u := by
  obtain ⟨e, he, rfl, rfl⟩ := h
  obtain ⟨e', he', hd'⟩ | hmiss := hit_or_misses digest c q u
  · rw [get_hit he' hd']
    have heq (hsame : path.same q) : e = e' :=
      Option.some.inj (he.symm.trans ((entryOf_same hsame c.entries).trans he'))
    constructor
    · intro hreading
      have hsame := hc.apart path q e he e' he' hreading
      exact ⟨hsame, heq hsame ▸ hd'⟩
    · rintro ⟨hsame, _⟩
      rw [heq hsame]
  · rw [get_miss hmiss]
    refine iff_of_false (Nat.ne_of_lt (hc.fresh path e he)) ?_
    rintro ⟨hsame, hd⟩
    exact hmiss e ((entryOf_same hsame c.entries).symm.trans he) hd

theorem Gone.reading_get {r : Nat} (h : Gone c r) : r ≠ (c.get digest q u).1.reading := by
  obtain ⟨e, he, hd⟩ | hmiss := hit_or_misses digest c q u
  · rw [get_hit he hd]
    exact (h.2 q e he).symm
  · rw [get_miss hmiss]
    exact Nat.ne_of_lt h.1

theorem Faithful.outline_get (hc : Faithful digest uses c)
    (hdigest : ∀ q u, .get q u ∈ uses → digest u = digest text → u = text) :
    ∃ q : Path, q.same path ∧ (c.get digest path text).1.outline = Outline.ofText q.text text := by
  obtain ⟨e, he, hd⟩ | hmiss := hit_or_misses digest c path text
  · rw [get_hit he hd]
    obtain ⟨q, u, hget, hsame, hdu, houtline⟩ := hc.source path e he
    rw [hdigest q u hget (hdu.symm.trans hd)] at houtline
    have hpath := (Path.same_iff.mp hsame).trans (Path.same_iff.mp (find?_same he))
    exact ⟨q, Path.same_iff.mpr hpath, houtline⟩
  · rw [get_miss hmiss]
    exact ⟨path, Path.same_iff.mpr rfl, rfl⟩

end Faithful

section Transparent
variable {δ : Type} [DecidableEq δ] (digest : String → δ)

/-- What a cache answers in a history `uses`, and how many outlines it has at the end. -/
structure Transparent (uses : List Use) : Prop where
  /-- Every outline is that of its text, for a file of the same path. -/
  fresh : ∀ before path text later, uses = before ++ .get path text :: later →
    ∃ q : Path, q.same path ∧ (answer digest before path text).outline =
      { Outline.ofText path.text text with file := q.text }
  /-- Two gets have the very same outline when the one repeats the other undisturbed. -/
  reuses : ∀ before path text between q u later,
    uses = before ++ .get path text :: (between ++ .get q u :: later) →
      ((answer digest before path text).reading =
          (answer digest (before ++ .get path text :: between) q u).reading ↔
        path.same q ∧ text = u ∧ Undisturbed path text (before ++ [.get path text]) between)
  size : (after digest uses).size =
    {name | ∃ path : Path, path.components = name ∧ (spelling path uses).isSome}.ncard

/-- A cache whose digests tell the texts of its history apart. -/
theorem transparent_of_injOn (uses : List Use)
    (hdigest : Set.InjOn digest {text | ∃ path, .get path text ∈ uses}) :
    Transparent digest uses := by
  refine ⟨?_, ?_, (after_faithful digest uses).size⟩
  · rintro before path text later rfl
    refine (after_faithful digest before).outline_get fun q u hget hd => hdigest ?_ ?_ hd
    · exact ⟨q, List.mem_append_left _ hget⟩
    · exact ⟨path, List.mem_append_right _ List.mem_cons_self⟩
  · rintro before path text between q u later rfl
    have hget : Holds (after digest (before ++ [.get path text])) path (digest text)
        (answer digest before path text).reading := by
      rw [after_concat]
      exact get_holds (after digest before) path text
    have hlater : ∀ q u, .get q u ∈ between → digest u = digest text → u = text := by
      intro q u hget hd
      refine hdigest ⟨q, ?_⟩ ⟨path, List.mem_append_right _ List.mem_cons_self⟩ hd
      exact List.mem_append_right _ (List.mem_cons_of_mem _ (List.mem_append_left _ hget))
    rw [List.append_cons before]
    obtain ⟨hundisturbed, hholds⟩ | ⟨hdisturbed, hgone⟩ := holds_or_gone between hlater hget
    · have hreading := hholds.reading_get (q := q) (u := u) (after_faithful digest _)
      refine hreading.trans (and_congr_right fun _ => ?_)
      rw [and_iff_left hundisturbed]
      constructor
      · intro hd
        refine hdigest ⟨path, List.mem_append_right _ List.mem_cons_self⟩ ⟨q, ?_⟩ hd
        exact List.mem_append_right _ (List.mem_cons_of_mem _ (List.mem_append_right _ List.mem_cons_self))
      · exact congrArg digest
    · exact iff_of_false hgone.reading_get fun h => hdisturbed h.2.2

/-- A path in two spellings, another path before and after, a changed text, and entries dropped. -/
def twoSpellings : List Use :=
  [.get ⟨"p.prc"⟩ "x", .get ⟨"a//p.prc"⟩ "x", .get ⟨"a/p.prc"⟩ "x", .get ⟨"a/p.prc"⟩ "y",
    .get ⟨"p.prc"⟩ "x", .retain fun path => path.text = "p.prc", .clear]

/-- The second spelling gets the outline of the first one, and the other path keeps its own. -/
theorem transparent_two_spellings :
    Set.InjOn id {text | ∃ path : Path, .get path text ∈ twoSpellings} ∧
      Transparent id twoSpellings ∧
      (answer id (twoSpellings.take 1) ⟨"a//p.prc"⟩ "x").reading =
        (answer id (twoSpellings.take 2) ⟨"a/p.prc"⟩ "x").reading ∧
      (answer id [] ⟨"p.prc"⟩ "x").reading = (answer id (twoSpellings.take 4) ⟨"p.prc"⟩ "x").reading := by
  have htransparent : Transparent id twoSpellings :=
    transparent_of_injOn id twoSpellings Function.injective_id.injOn
  have hother : ¬ (Path.mk "a/p.prc").same ⟨"p.prc"⟩ := by decide
  refine ⟨Function.injective_id.injOn, htransparent, ?_, ?_⟩
  · exact (htransparent.reuses _ _ _ [] _ _ _ rfl).mpr ⟨by decide, rfl, trivial⟩
  · exact (htransparent.reuses [] _ _ (twoSpellings.take 4).tail _ _ _ rfl).mpr
      ⟨by decide, rfl, fun _ => rfl, fun _ => rfl, fun h => absurd h hother, trivial⟩

end Transparent

end DigestCache

end PlsqlNav
