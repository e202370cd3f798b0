import PlsqlNav.Settings

/-! Synonyms from two layers. A table keeps its aliases in ascending order, and of those that a name can
be read as the greatest one counts, whichever layer it comes from. The newer layer comes first only
where both spell an alias alike. -/
namespace PlsqlNav

namespace Synonyms

/-- The target of an alias that is spelled just so; of several the last one counts. -/
def target? (table : Synonyms) (written : String) : Option String := table.reverse.lookup written

def Ascending (table : Synonyms) : Prop := table.Pairwise fun a b => a.1 < b.1

section Table
variable {table : Synonyms} {name target a : String} {e : String × String}

theorem mem_insert (h : Ascending table) :
    e ∈ table.insert name target ↔ e = (name, target) ∨ e ∈ table ∧ e.1 ≠ name := by
  induction table with
  | nil => simp [insert]
  | cons f table ih =>
    obtain ⟨hbefore, hrest⟩ := List.pairwise_cons.mp h
    rw [insert]
    split
    · next hlt =>
      have hne : ∀ e ∈ f :: table, e.1 ≠ name := by
        intro e he heq
        rcases List.mem_cons.mp he with rfl | he
        · exact String.ne_of_lt hlt heq.symm
        · exact String.lt_asymm (heq ▸ hbefore e he) hlt
      rw [List.mem_cons, and_iff_left_of_imp (hne e)]
    · split
      · next heq =>
        have hne : ∀ e ∈ table, e.1 ≠ name := by
          intro e he hname
          exact String.ne_of_lt (hbefore e he) (heq.symm.trans hname.symm)
        rw [List.mem_cons, List.mem_cons, or_and_right, and_iff_left_of_imp (hne e)]
        have hf : ¬ (e = f ∧ e.1 ≠ name) := fun hf => hf.2 (hf.1 ▸ heq.symm)
        rw [or_iff_right hf]
      · next heq =>
        have hf : e = f → e.1 ≠ name := fun hf hname => heq (hf ▸ hname.symm)
        rw [List.mem_cons, ih hrest, List.mem_cons, or_and_right, and_iff_left_of_imp hf,
          or_left_comm]

theorem Ascending.insert (h : Ascending table) (name target : String) :
    Ascending (table.insert name target) := by
  induction table with
  | nil => exact List.pairwise_singleton _ _
  | cons f table ih =>
    obtain ⟨hbefore, hrest⟩ := List.pairwise_cons.mp h
    rw [Synonyms.insert]
    split
    · next hlt =>
      refine List.pairwise_cons.mpr ⟨fun e he => ?_, h⟩
      rcases List.mem_cons.mp he with rfl | he
      · exact hlt
      · exact String.lt_trans hlt (hbefore e he)
    · next hle =>
      split
      · next heq =>
        exact List.pairwise_cons.mpr ⟨fun e he => heq ▸ hbefore e he, hrest⟩
      · next hne =>
        refine List.pairwise_cons.mpr ⟨fun e he => ?_, ih hrest⟩
        rcases (mem_insert hrest).mp he with rfl | he
        · exact Std.lt_of_le_of_ne (String.not_lt.mp hle) (Ne.symm hne)
        · exact hbefore e he.1

theorem target?_eq_some_iff (h : Ascending table) :
    table.target? a = some target ↔ (a, target) ∈ table := by
  rw [target?, List.lookup_eq_some_iff]
  constructor
  · rintro ⟨before, after, heq, -⟩
    rw [← List.mem_reverse, heq]
    exact List.mem_append_right _ List.mem_cons_self
  · intro hmem
    obtain ⟨before, after, rfl⟩ := List.append_of_mem hmem
    refine ⟨after.reverse, before.reverse, by simp, fun p hp => ?_⟩
    have hlt : a < p.1 := (List.pairwise_cons.mp (List.pairwise_append.mp h).2.1).1 p
      (List.mem_reverse.mp hp)
    exact bne_iff_ne.mpr (String.ne_of_lt hlt)

theorem target?_cons (e : String × String) (table : Synonyms) (a : String) :
    target? (e :: table) a = (table.target? a).or (if a = e.1 then some e.2 else none) := by
  rw [target?, List.reverse_cons, List.lookup_append]
  congr 1
  rw [List.lookup_cons, List.lookup_nil]
  by_cases ha : a = e.1
  · rw [if_pos ha, beq_iff_eq.mpr ha]
  · rw [if_neg ha, beq_eq_false_iff_ne.mpr ha]

theorem target?_insert (h : Ascending table) (name target a : String) :
    (table.insert name target).target? a = if a = name then some target else table.target? a := by
  ext t
  rw [target?_eq_some_iff (h.insert name target), mem_insert h, Prod.mk.injEq]
  split
  · next ha => simp [ha, eq_comm]
  · next ha => simp [ha, target?_eq_some_iff h]

theorem Ascending.merge (h : Ascending table) (newer : Synonyms) : Ascending (table.merge newer) := by
  induction newer generalizing table with
  | nil => exact h
  | cons e newer ih => exact ih (h.insert e.1 e.2)

/-- Where two tables have the same spelling, the newer one counts. -/
theorem target?_merge (h : Ascending table) (newer : Synonyms) (a : String) :
    (table.merge newer).target? a = (newer.target? a).or (table.target? a) := by
  induction newer generalizing table with
  | nil => rfl
  | cons e newer ih =>
    rw [merge, List.foldl_cons]
    refine (ih (h.insert e.1 e.2)).trans ?_
    rw [target?_insert h, target?_cons, Option.or_assoc]
    split <;> rfl

end Table

/-- `a` is the greatest of the aliases that satisfy `Has` and that `name` can be read as. -/
structure Greatest (Has : String → Prop) (name a : String) : Prop where
  has : Has a
  sameName : Text.sameName a name
  greatest : ∀ b, Has b → Text.sameName b name → b ≤ a

/-- In a table in order a name stands for the target of the greatest alias that it can be read as. -/
theorem translate_cases {table : Synonyms} (h : Ascending table) (name : String) :
    (∃ a target, table.target? a = some target ∧
      Greatest (fun b => (table.target? b).isSome) name a ∧ table.translate name = target) ∨
    (∀ a, Text.sameName a name → table.target? a = none) ∧ table.translate name = name := by
  rw [translate]
  split
  · next a target hfind =>
    obtain ⟨hsame, before, after, heq, hbefore⟩ := List.find?_eq_some_iff_append.mp hfind
    have htable : table = after.reverse ++ (a, target) :: before.reverse := by
      rw [← List.reverse_reverse table, heq]
      simp
    have htarget : table.target? a = some target := by
      rw [target?_eq_some_iff h, htable]
      exact List.mem_append_right _ List.mem_cons_self
    refine .inl ⟨a, target, htarget, ⟨Option.isSome_of_eq_some htarget, hsame, fun b hb hname => ?_⟩, rfl⟩
    obtain ⟨t, ht⟩ := Option.isSome_iff_exists.mp hb
    rw [target?_eq_some_iff h, htable] at ht
    rw [htable] at h
    -- An alias behind the one that was found does not match, and one in front of it is smaller.
    rcases List.mem_append.mp ht with ht | ht
    · have hlt : b < a := (List.pairwise_append.mp h).2.2 _ ht _ List.mem_cons_self
      exact String.not_lt.mp (String.lt_asymm hlt)
    · rcases List.mem_cons.mp ht with ht | ht
      · cases ht
        exact String.le_refl a
      · have hno := hbefore (b, t) (List.mem_reverse.mp ht)
        rw [hname] at hno
        contradiction
  · next hfind =>
    refine .inr ⟨fun a ha => Option.eq_none_iff_forall_ne_some.mpr fun t ht => ?_, rfl⟩
    have hmem := List.mem_reverse.mpr ((target?_eq_some_iff h).mp ht)
    exact absurd ha (List.find?_eq_none.mp hfind (a, t) hmem)

/-- What a name stands for by two tables. -/
inductive Resolved (older newer : Synonyms) (name : String) : String → Prop
  | newer {a target} : newer.target? a = some target →
      Greatest (fun b => (newer.target? b).isSome ∨ (older.target? b).isSome) name a →
      Resolved older newer name target
  | older {a target} : newer.target? a = none → older.target? a = some target →
      Greatest (fun b => (newer.target? b).isSome ∨ (older.target? b).isSome) name a →
      Resolved older newer name target
  | unknown : (∀ a, Text.sameName a name → newer.target? a = none ∧ older.target? a = none) →
      Resolved older newer name name

theorem translate_merge {table older newer : Synonyms} (h : Ascending table)
    (htable : ∀ a, table.target? a = older.target? a) (name : String) :
    Resolved older newer name ((table.merge newer).translate name) := by
  have htarget (a : String) :
      (table.merge newer).target? a = (newer.target? a).or (older.target? a) := by
    rw [target?_merge h, htable]
  have hhas (a : String) : ((table.merge newer).target? a).isSome ↔
      (newer.target? a).isSome ∨ (older.target? a).isSome := by
    rw [htarget, Option.isSome_or, Bool.or_eq_true]
  rcases translate_cases (h.merge newer) name with ⟨a, target, ha, hgreatest, htranslate⟩ | ⟨hnone, htranslate⟩
  · rw [htranslate]
    have hgreatest' : Greatest (fun b => (newer.target? b).isSome ∨ (older.target? b).isSome) name a :=
      ⟨(hhas a).mp hgreatest.has, hgreatest.sameName,
        fun b hb => hgreatest.greatest b ((hhas b).mpr hb)⟩
    rw [htarget, Option.or_eq_some_iff] at ha
    rcases ha with ha | ⟨hnewer, holder⟩
    · exact .newer ha hgreatest'
    · exact .older hnewer holder hgreatest'
  · rw [htranslate]
    refine .unknown fun a ha => ?_
    have := hnone a ha
    rw [htarget, Option.or_eq_none_iff] at this
    exact this

/-- Every alias of the older table that `name` can be read as has one of the newer table behind it or
in its place. -/
def Overtakes (older newer : Synonyms) (name : String) : Prop :=
  ∀ b, (older.target? b).isSome → Text.sameName b name →
    ∃ a, (newer.target? a).isSome ∧ Text.sameName a name ∧ b ≤ a

/-- `target` is what the newer table gives an alias that `name` can be read as. -/
def Gives (newer : Synonyms) (name target : String) : Prop :=
  ∃ a, newer.target? a = some target ∧ Text.sameName a name

theorem Resolved.gives {older newer : Synonyms} {name target a : String}
    (h : Resolved older newer name target) (hover : Overtakes older newer name)
    (ha : (newer.target? a).isSome) (hname : Text.sameName a name) : Gives newer name target := by
  cases h with
  | newer htarget hgreatest => exact ⟨_, htarget, hgreatest.sameName⟩
  | @older b _ hnewer holder hgreatest =>
    obtain ⟨c, hc, hcname, hbc⟩ := hover b (Option.isSome_of_eq_some holder) hgreatest.sameName
    have heq : c = b := String.le_antisymm (hgreatest.greatest c (.inl hc) hcname) hbc
    rw [heq, hnewer] at hc
    contradiction
  | unknown hnone =>
    rw [(hnone a hname).1] at ha
    contradiction

end Synonyms

namespace Settings

/-- The configuration file of a directory sets what the layer says. -/
def HasLayer (disk : Disk) (base : Path) (layer : Layer) : Prop :=
  ∃ text, disk.read (fileOf base) = .ok text ∧ Layer.ofText text = .ok layer

theorem overlayFrom_layer {disk : Disk} {base : Path} {layer : Layer} (h : HasLayer disk base layer)
    (s : Settings) : s.overlayFrom disk base = .ok (s.overlay layer base) := by
  obtain ⟨text, hread, hlayer⟩ := h
  simp only [overlayFrom, hread, hlayer]

theorem load_layers {disk : Disk} {home workspace : Path} {older newer : Layer}
    (ho : HasLayer disk home older) (hn : HasLayer disk workspace newer) :
    load disk (some home) (some workspace) =
      .ok ((builtIn.overlay older home).overlay newer workspace) := by
  simp only [load, List.foldlM_cons, List.foldlM_nil, overlayFrom_layer ho]
  exact (bind_pure _).trans (overlayFrom_layer hn _)

/-- With the loaded settings a name stands for what both layers together make of it, and for what the
newer one says of it where no alias of the older one comes behind all of its own. -/
theorem load_translate {disk : Disk} {home workspace : Path} {older newer : Layer}
    (ho : HasLayer disk home older) (hn : HasLayer disk workspace newer) :
    ∃ s, load disk (some home) (some workspace) = .ok s ∧ ∀ name,
      Synonyms.Resolved older.synonyms newer.synonyms name (s.synonyms.translate name) ∧
      (Synonyms.Overtakes older.synonyms newer.synonyms name →
        ∀ a, (Synonyms.target? newer.synonyms a).isSome → Text.sameName a name →
          Synonyms.Gives newer.synonyms name (s.synonyms.translate name)) := by
  refine ⟨_, load_layers ho hn, fun name => ?_⟩
  have hempty : Synonyms.Ascending [] := List.Pairwise.nil
  have holder (a : String) : (Synonyms.merge [] older.synonyms).target? a =
      Synonyms.target? older.synonyms a := by
    rw [Synonyms.target?_merge hempty]
    exact Option.or_none
  have hresolved : Synonyms.Resolved older.synonyms newer.synonyms name _ :=
    Synonyms.translate_merge (hempty.merge older.synonyms) holder name
  exact ⟨hresolved, fun hover a => hresolved.gives hover⟩

section Examples

/-- Two directories with a configuration file each. -/
def twoLayers (older newer : String) : Disk :=
  let config (text : String) : FileTree :=
    .directory [(".plnav", .directory [("config.toml", .file text.toUTF8)])]
  ⟨.directory [("home", config older), ("ws", config newer)], []⟩

def oneSynonym (name target : String) : Layer := ⟨none, none, [(name, target)], none, none⟩

theorem target?_oneSynonym (name target a : String) :
    Synonyms.target? (oneSynonym name target).synonyms a = if a = name then some target else none :=
  Synonyms.target?_cons (name, target) [] a

def lowerText : String := "[synonyms]\nutil = \"PKG_A\"\n"

def upperText : String := "[synonyms]\nUTIL = \"PKG_B\"\n"

theorem hasLayer_of_toOption {disk : Disk} {base : Path} {text : String} {layer : Layer}
    (hread : (disk.read (fileOf base)).toOption = some text)
    (hlayer : (Layer.ofText text).toOption = some layer) : HasLayer disk base layer := by
  refine ⟨text, ?_, ?_⟩
  · cases h : disk.read (fileOf base) <;> simp_all [Except.toOption]
  · cases h : Layer.ofText text <;> simp_all [Except.toOption]

theorem lowerText_layer : (Layer.ofText lowerText).toOption = some (oneSynonym "util" "PKG_A") := by
  decide +kernel

theorem upperText_layer : (Layer.ofText upperText).toOption = some (oneSynonym "UTIL" "PKG_B") := by
  decide +kernel

/-- The lower-case alias comes behind the upper-case one, and here it is the newer one too. -/
theorem load_translate_lower :
    HasLayer (twoLayers upperText lowerText) ⟨"home"⟩ (oneSynonym "UTIL" "PKG_B") ∧
    HasLayer (twoLayers upperText lowerText) ⟨"ws"⟩ (oneSynonym "util" "PKG_A") ∧
    ∃ s, load (twoLayers upperText lowerText) (some ⟨"home"⟩) (some ⟨"ws"⟩) = .ok s ∧
      Synonyms.Gives [("util", "PKG_A")] "Util" (s.synonyms.translate "Util") := by
  have ho : HasLayer (twoLayers upperText lowerText) ⟨"home"⟩ (oneSynonym "UTIL" "PKG_B") :=
    hasLayer_of_toOption (by decide +kernel) upperText_layer
  have hn : HasLayer (twoLayers upperText lowerText) ⟨"ws"⟩ (oneSynonym "util" "PKG_A") :=
    hasLayer_of_toOption (by decide +kernel) lowerText_layer
  obtain ⟨s, hload, hs⟩ := load_translate ho hn
  refine ⟨ho, hn, s, hload, (hs "Util").2 ?_ "util" (by decide) (by decide)⟩
  intro b hb _
  rw [target?_oneSynonym] at hb
  split at hb
  · next hupper => exact ⟨"util", by decide, by decide, by rw [hupper]; decide⟩
  · contradiction

/-- The other way round the older alias counts, so that the newer layer does not come first. -/
theorem not_newerFirst :
    ¬ ∀ (disk : Disk) (home workspace : Path) (older newer : Layer) (s : Settings),
      HasLayer disk home older → HasLayer disk workspace newer →
      load disk (some home) (some workspace) = .ok s → ∀ a name,
        (Synonyms.target? newer.synonyms a).isSome → Text.sameName a name →
          Synonyms.Gives newer.synonyms name (s.synonyms.translate name) := by
  intro h
  have ho : HasLayer (twoLayers lowerText upperText) ⟨"home"⟩ (oneSynonym "util" "PKG_A") :=
    hasLayer_of_toOption (by decide +kernel) lowerText_layer
  have hn : HasLayer (twoLayers lowerText upperText) ⟨"ws"⟩ (oneSynonym "UTIL" "PKG_B") :=
    hasLayer_of_toOption (by decide +kernel) upperText_layer
  obtain ⟨a, ha, -⟩ := h _ _ _ _ _ _ ho hn (load_layers ho hn) "UTIL" "util" (by decide) (by decide)
  have htarget : Synonyms.translate ((builtIn.overlay (oneSynonym "util" "PKG_A") ⟨"home"⟩).overlay
      (oneSynonym "UTIL" "PKG_B") ⟨"ws"⟩).synonyms "util" = "PKG_A" := by decide
  rw [htarget] at ha
  rw [target?_oneSynonym] at ha
  split at ha
  · exact absurd ha (by decide)
  · contradiction

end Examples

end Settings

end PlsqlNav
