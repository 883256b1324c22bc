import Mathlib.Data.List.Nodup
import Quill.Engine.Directory
import Quill.Proofs.Outcome

/-!
Looking up engines, one request after another.

What an alias stands for is settled by the definitions alone: `build` gives its engine or the error,
and no lookup changes that.  A directory only ever gains engines.  Once an alias has one it keeps
it, whoever asks, and an alias that has none yet gives what `build` gives, so that the order of the
requests is of no account.
-/

namespace Quill
namespace Directory

/-! ## Definitions -/

theorem nodup_of_duplicates {aliases : List String} (h : duplicates aliases = []) :
    aliases.Nodup := by
  refine List.nodup_iff_count_le_one.mpr fun a => ?_
  by_contra hcount
  have hmem : a ∈ aliases := List.count_pos_iff.mp (by omega)
  have hrepeated : a ∈ duplicates aliases := by
    refine (List.mergeSort_perm ..).mem_iff.mpr (List.mem_filter.mpr ⟨?_, ?_⟩)
    · exact Scope.mem_freshNames.mpr ⟨hmem, List.not_mem_nil⟩
    · exact decide_eq_true (by omega)
  rw [h] at hrepeated
  exact List.not_mem_nil hrepeated

theorem nodup_of_definitions {d : Directory} {ds : List Definition}
    (h : d.definitions = .ok ds) : (ds.map Definition.name).Nodup := by
  obtain ⟨all, -, h⟩ := Outcome.bind_eq_ok.mp h
  split at h
  · next hnone =>
    cases h
    exact nodup_of_duplicates hnone
  · cases h

theorem aliases_eq_ok {d : Directory} {names : List String} :
    d.aliases = .ok names ↔ ∃ ds, d.definitions = .ok ds ∧ ds.map Definition.name = names := by
  refine Outcome.bind_eq_ok.trans (exists_congr fun ds => and_congr_right fun _ => ?_)
  exact ⟨Except.ok.inj, congrArg Except.ok⟩

def build (d : Directory) (name : String) : Except DirectoryError Engine := do
  let ds ← d.definitions
  match ds.find? fun x => x.name == name with
  | none => throw (.unknownAlias name)
  | some definition => buildEngine d.catalogue definition

theorem mem_aliases_of_build {d : Directory} {name : String} {e : Engine}
    (h : d.build name = .ok e) : ∃ names, d.aliases = .ok names ∧ name ∈ names := by
  obtain ⟨ds, hds, h⟩ := Outcome.bind_eq_ok.mp h
  refine ⟨_, aliases_eq_ok.mpr ⟨ds, hds, rfl⟩, ?_⟩
  split at h
  · cases h
  · next definition hfind =>
    have hname := List.find?_some hfind
    exact List.mem_map.mpr ⟨definition, List.mem_of_find?_eq_some hfind, eq_of_beq hname⟩

/-! ## One lookup -/

def keep (d : Directory) (name : String) (e : Engine) : Directory :=
  { d with built := d.built.set name ⟨d.count, e⟩, count := d.count + 1 }

/-- A lookup finds the engine that is there, fails and changes nothing, or keeps a new engine. -/
theorem get_cases (d : Directory) (name : String) :
    (∃ b, d.built.get? name = some b ∧ d.get name = (d, .ok b)) ∨
    d.built.get? name = none ∧
      ((∃ e, d.build name = .error e ∧ d.get name = (d, .error e)) ∨
      ∃ e, d.build name = .ok e ∧ d.get name = (d.keep name e, .ok ⟨d.count, e⟩)) := by
  cases hbuilt : d.built.get? name with
  | some b => exact .inl ⟨b, rfl, by rw [get, hbuilt]⟩
  | none =>
    refine .inr ⟨rfl, ?_⟩
    simp only [get, hbuilt, build]
    cases d.definitions with
    | error e => exact .inl ⟨e, rfl, rfl⟩
    | ok ds =>
      simp only [Outcome.ok_bind]
      cases hfind : ds.find? fun x => x.name == name with
      | none => exact .inl ⟨.unknownAlias name, rfl, rfl⟩
      | some definition =>
        simp only
        cases buildEngine d.catalogue definition with
        | error e => exact .inl ⟨e, rfl, rfl⟩
        | ok e => exact .inr ⟨e, rfl, rfl⟩

theorem get_of_kept {d : Directory} {name : String} {b : Built}
    (h : d.built.get? name = some b) : d.get name = (d, .ok b) := by
  rw [get, h]

theorem kept_of_get {d : Directory} {name : String} {b : Built} (h : (d.get name).2 = .ok b) :
    (d.get name).1.built.get? name = some b := by
  rcases get_cases d name with ⟨b', hkept, hget⟩ | ⟨-, ⟨e, -, hget⟩ | ⟨e, -, hget⟩⟩
  · rw [hget] at h ⊢
    cases h
    exact hkept
  · rw [hget] at h
    cases h
  · rw [hget] at h ⊢
    cases h
    exact Assoc.get?_set_self ..

theorem get_of_error {d : Directory} {name : String} {e : DirectoryError}
    (h : (d.get name).2 = .error e) : (d.get name).1 = d := by
  rcases get_cases d name with ⟨b, -, hget⟩ | ⟨-, ⟨_, -, hget⟩ | ⟨_, -, hget⟩⟩
  · rw [hget]
  · rw [hget]
  · rw [hget] at h
    cases h

/-! ## What requests preserve -/

/-- The engines of a directory are those that their aliases stand for, and their numbers tell them
apart. -/
structure Sound (d : Directory) : Prop where
  engine : ∀ name b, d.built.get? name = some b → d.build name = .ok b.engine
  fresh : ∀ name b, d.built.get? name = some b → b.number < d.count
  apart : ∀ name name' b b', d.built.get? name = some b → d.built.get? name' = some b' →
    b.number = b'.number → name = name'

theorem sound_ofEntries (c : Catalogue) (entries : Option (List Entry)) :
    (ofEntries c entries).Sound := ⟨nofun, nofun, nofun⟩

theorem Sound.keep {d : Directory} (hd : d.Sound) {name : String} {e : Engine}
    (h : d.build name = .ok e) : (d.keep name e).Sound where
  engine other b hb := by
    rw [Directory.keep, Assoc.get?_set] at hb
    split at hb
    · next hname =>
      cases hb
      subst hname
      exact h
    · exact hd.engine other b hb
  fresh other b hb := by
    show b.number < d.count + 1
    rw [Directory.keep, Assoc.get?_set] at hb
    split at hb
    · cases hb
      exact Nat.lt_succ_self d.count
    · have hold := hd.fresh other b hb
      omega
  apart other other' b b' hb hb' hnumber := by
    rw [Directory.keep, Assoc.get?_set] at hb hb'
    split at hb <;> split at hb'
    · next hname hname' => rw [hname, hname']
    · cases hb
      have hold := hd.fresh other' b' hb'
      simp only at hnumber
      omega
    · cases hb'
      have hold := hd.fresh other b hb
      simp only at hnumber
      omega
    · exact hd.apart other other' b b' hb hb' hnumber

/-- One directory comes from another by lookups: it has the same definitions and all the engines of
the other, and it is sound if the other is. -/
structure Extends (d d' : Directory) : Prop where
  catalogue : d'.catalogue = d.catalogue
  entries : d'.entries = d.entries
  kept : ∀ name b, d.built.get? name = some b → d'.built.get? name = some b
  sound : d.Sound → d'.Sound

theorem Extends.refl (d : Directory) : d.Extends d := ⟨rfl, rfl, fun _ _ h => h, id⟩

theorem Extends.trans {d d' d'' : Directory} (h : d.Extends d') (h' : d'.Extends d'') :
    d.Extends d'' where
  catalogue := h'.catalogue.trans h.catalogue
  entries := h'.entries.trans h.entries
  kept name b hb := h'.kept name b (h.kept name b hb)
  sound hd := h'.sound (h.sound hd)

section Extends

variable {d d' : Directory} (h : d.Extends d')
include h

theorem Extends.definitions_eq : d'.definitions = d.definitions := by
  rw [definitions, definitions, h.entries]

theorem Extends.aliases_eq : d'.aliases = d.aliases := by
  rw [aliases, aliases, h.definitions_eq]

/-- Lookups do not change what an alias stands for. -/
theorem Extends.build_eq (name : String) : d'.build name = d.build name := by
  rw [build, build, h.definitions_eq, h.catalogue]

end Extends

theorem extends_get (d : Directory) (name : String) : d.Extends (d.get name).1 := by
  rcases get_cases d name with ⟨b, -, hget⟩ | ⟨hnone, ⟨e, -, hget⟩ | ⟨e, hbuild, hget⟩⟩
  · rw [hget]
    exact .refl d
  · rw [hget]
    exact .refl d
  · rw [hget]
    refine ⟨rfl, rfl, fun other b hb => ?_, fun hd => hd.keep hbuild⟩
    have hother : other ≠ name := by
      rintro rfl
      rw [hnone] at hb
      cases hb
    exact (Assoc.get?_set ..).trans ((if_neg hother).trans hb)

/-- A lookup of several aliases succeeds when the first does and then the others. -/
theorem getAll_cons (d : Directory) (name : String) (rest : List String) :
    (∃ e, (d.get name).2 = .error e ∧ d.getAll (name :: rest) = ((d.get name).1, .error e)) ∨
    ∃ b, (d.get name).2 = .ok b ∧
      d.getAll (name :: rest) = (((d.get name).1.getAll rest).1,
        ((d.get name).1.getAll rest).2.map (b :: ·)) := by
  rw [getAll]
  obtain ⟨next, result⟩ := d.get name
  cases result with
  | error e => exact .inl ⟨e, rfl, rfl⟩
  | ok b =>
    refine .inr ⟨b, rfl, ?_⟩
    simp only
    obtain ⟨last, others⟩ := next.getAll rest
    cases others with
    | error e => rfl
    | ok bs => rfl

theorem extends_getAll (d : Directory) (names : List String) :
    d.Extends (d.getAll names).1 := by
  induction names generalizing d with
  | nil => exact .refl d
  | cons name rest ih =>
    have hfirst := extends_get d name
    rcases getAll_cons d name rest with ⟨e, -, hall⟩ | ⟨b, -, hall⟩
    · rw [hall]
      exact hfirst
    · rw [hall]
      exact hfirst.trans (ih _)

theorem extends_all (d : Directory) : d.Extends d.all.1 := by
  rw [all]
  split
  · exact .refl d
  · exact extends_getAll d _

theorem extends_findDefault (d : Directory) : d.Extends d.findDefault.1 := by
  rw [findDefault]
  split
  · exact .refl d
  · next names _ =>
    have hall := extends_getAll d names
    split
    · exact extends_get d "default"
    · split
      · next heq => rwa [heq] at hall
      · next heq => rwa [heq] at hall
      · next heq => rwa [heq] at hall

theorem extends_default (d : Directory) : d.Extends d.default.1 := by
  have hfind := extends_findDefault d
  rw [default]
  split
  · exact .refl d
  · split
    · next heq =>
      -- The engine is noted as the default one, which no other field depends on.
      rw [heq] at hfind
      exact ⟨hfind.catalogue, hfind.entries, hfind.kept,
        fun hd => ⟨(hfind.sound hd).engine, (hfind.sound hd).fresh, (hfind.sound hd).apart⟩⟩
    · next heq => rwa [heq] at hfind

/-! ## Requests -/

inductive Request where
  | aliases
  | engine (name : String)
  | all
  | default

def step (d : Directory) : Request → Directory
  | .aliases => d
  | .engine name => (d.get name).1
  | .all => d.all.1
  | .default => d.default.1

def after (d : Directory) (requests : List Request) : Directory := requests.foldl step d

theorem extends_step (d : Directory) (r : Request) : d.Extends (d.step r) := by
  cases r with
  | aliases => exact .refl d
  | engine name => exact extends_get d name
  | all => exact extends_all d
  | default => exact extends_default d

theorem extends_after (d : Directory) (requests : List Request) :
    d.Extends (d.after requests) := by
  induction requests generalizing d with
  | nil => exact .refl d
  | cons r rest ih => exact (extends_step d r).trans (ih (d.step r))

/-! ## Results -/

/-- A lookup gives what the alias stands for. -/
theorem engine_get {d : Directory} (hd : d.Sound) (name : String) :
    (d.get name).2.map Built.engine = d.build name := by
  rcases get_cases d name with ⟨b, hkept, hget⟩ | ⟨-, ⟨e, hbuild, hget⟩ | ⟨e, hbuild, hget⟩⟩
  · rw [hget, hd.engine name b hkept]
    rfl
  · rw [hget, hbuild]
    rfl
  · rw [hget, hbuild]
    rfl

/-- Several lookups together give what the aliases stand for, up to the first error. -/
theorem engines_getAll {d : Directory} (hd : d.Sound) (names : List String) :
    (d.getAll names).2.map (List.map Built.engine) = names.mapM d.build := by
  induction names generalizing d with
  | nil => rfl
  | cons name rest ih =>
    have hfirst := extends_get d name
    -- The others are looked up behind the first, where they stand for the same.
    have hrest := ih (hfirst.sound hd)
    rw [funext hfirst.build_eq] at hrest
    rw [List.mapM_cons, ← hrest, ← engine_get hd name]
    rcases getAll_cons d name rest with ⟨e, hget, hall⟩ | ⟨b, hget, hall⟩
    · rw [hall, hget]
      rfl
    · rw [hall, hget]
      cases ((d.get name).1.getAll rest).2 with
      | error e => rfl
      | ok bs => rfl

/-- Aliases that are looked up together have their engines afterwards. -/
theorem kept_getAll {d : Directory} {names : List String} {bs : List Built}
    (h : (d.getAll names).2 = .ok bs) :
    names.map (fun name => (d.getAll names).1.built.get? name) = bs.map some := by
  induction names generalizing d bs with
  | nil =>
    cases h
    rfl
  | cons name rest ih =>
    rcases getAll_cons d name rest with ⟨e, -, hall⟩ | ⟨b, hget, hall⟩
    · rw [hall] at h
      cases h
    · rw [hall] at h ⊢
      cases hrest : ((d.get name).1.getAll rest).2 with
      | error e =>
        rw [hrest] at h
        cases h
      | ok others =>
        rw [hrest] at h
        cases h
        have hname := (extends_getAll _ rest).kept name b (kept_of_get hget)
        rw [List.map_cons, List.map_cons, hname, ih hrest]

theorem all_of_aliases {d : Directory} {names : List String} (h : d.aliases = .ok names) :
    d.all = d.getAll names := by
  rw [all, h]

theorem engines_all {d : Directory} (hd : d.Sound) :
    d.all.2.map (List.map Built.engine) = d.aliases >>= fun names => names.mapM d.build := by
  cases hnames : d.aliases with
  | error e =>
    rw [all, hnames]
    rfl
  | ok names =>
    rw [all_of_aliases hnames, engines_getAll hd]
    rfl

theorem kept_all {d : Directory} {bs : List Built} (h : d.all.2 = .ok bs) :
    ∃ names, d.aliases = .ok names ∧
      names.map (fun name => d.all.1.built.get? name) = bs.map some := by
  cases hnames : d.aliases with
  | error e =>
    rw [all, hnames] at h
    cases h
  | ok names =>
    rw [all_of_aliases hnames] at h ⊢
    exact ⟨names, rfl, kept_getAll h⟩

/-- Items that all have a value under `f` go where their values go. -/
theorem map_of_map_some {α β γ : Type} {f : α → Option β} {g : α → γ} {h : β → γ} {as : List α}
    {bs : List β} (hall : as.map f = bs.map some) (himp : ∀ a b, f a = some b → g a = h b) :
    as.map g = bs.map h := by
  induction as generalizing bs with
  | nil =>
    rw [List.map_nil, eq_comm, List.map_eq_nil_iff] at hall
    rw [hall]
    rfl
  | cons a rest ih =>
    obtain ⟨b, others, rfl, hb, hrest⟩ := List.map_eq_cons_iff.mp hall.symm
    rw [List.map_cons, List.map_cons, himp a b hb.symm, ih hrest.symm]

theorem Sound.nodup_numbers {d : Directory} (hd : d.Sound) {names : List String}
    {bs : List Built} (hnames : names.Nodup)
    (h : names.map (fun name => d.built.get? name) = bs.map some) :
    (bs.map Built.number).Nodup := by
  -- Aliases with one number are the same alias, so that none comes twice.
  have hkept : ∀ name ∈ names, ∃ b, d.built.get? name = some b := by
    intro name hname
    have hmem := List.mem_map_of_mem (f := fun name => d.built.get? name) hname
    rw [h] at hmem
    obtain ⟨b, -, hb⟩ := List.mem_map.mp hmem
    exact ⟨b, hb.symm⟩
  have hnumbers : names.map (fun name => (d.built.get? name).map Built.number) =
      bs.map fun b => some b.number :=
    map_of_map_some h fun name b hb => by rw [hb]; rfl
  refine List.Nodup.of_map some ?_
  rw [List.map_map]
  refine (congrArg List.Nodup hnumbers).mp (hnames.map_on fun name hname name' hname' heq => ?_)
  obtain ⟨b, hb⟩ := hkept name hname
  obtain ⟨b', hb'⟩ := hkept name' hname'
  rw [hb, hb'] at heq
  exact hd.apart name name' b b' hb hb' (Option.some.inj heq)

theorem get_after {d : Directory} {name : String} {b : Built} (h : d.built.get? name = some b)
    (more : List Request) : ((d.after more).get name).2 = .ok b := by
  rw [get_of_kept ((extends_after d more).kept name b h)]

/-- A listing has the engine that is kept under an alias in the place of the alias. -/
theorem listed_of_kept {d : Directory} (hd : d.Sound) {name : String} {b : Built}
    {bs : List Built} (hkept : d.built.get? name = some b) (hall : d.all.2 = .ok bs) :
    ∃ names : List String, d.aliases = .ok names ∧ name ∈ names ∧
      ∀ i : Nat, names[i]? = some name → bs[i]? = some b := by
  obtain ⟨names, hnames, hlisted⟩ := kept_all hall
  obtain ⟨names', hnames', hmem⟩ := mem_aliases_of_build (hd.engine name b hkept)
  obtain rfl : names' = names := Except.ok.inj (hnames'.symm.trans hnames)
  refine ⟨names', hnames, hmem, fun i hi => ?_⟩
  have hplace := congrArg (fun l => l[i]?) hlisted
  simp only [List.getElem?_map, hi, (extends_all d).kept name b hkept, Option.map_some] at hplace
  obtain ⟨b', hb', hsame⟩ := Option.map_eq_some_iff.mp hplace.symm
  cases hsame
  exact hb'

/-- A listing has different engines, which are what the aliases give from then on. -/
theorem listed_all {d : Directory} (hd : d.Sound) {bs : List Built} (hall : d.all.2 = .ok bs) :
    ∃ names, d.aliases = .ok names ∧ names.Nodup ∧ (bs.map Built.number).Nodup ∧
      ∀ more, names.map (fun name => ((d.all.1.after more).get name).2) = bs.map .ok := by
  obtain ⟨names, hnames, hlisted⟩ := kept_all hall
  have hnodup : names.Nodup := by
    obtain ⟨ds, hds, rfl⟩ := aliases_eq_ok.mp hnames
    exact nodup_of_definitions hds
  exact ⟨names, hnames, hnodup, ((extends_all d).sound hd).nodup_numbers hnodup hlisted,
    fun more => map_of_map_some hlisted fun name b hb => get_after hb more⟩

theorem exists_all {d : Directory} (hd : d.Sound) {names : List String}
    (hnames : d.aliases = .ok names) (h : ∀ name ∈ names, ∃ e, d.build name = .ok e) :
    ∃ bs, d.all.2 = .ok bs := by
  obtain ⟨es, hes⟩ := Outcome.exists_mapM_eq_ok h
  have hengines := engines_all hd
  rw [hnames, Outcome.ok_bind, hes] at hengines
  cases hall : d.all.2 with
  | error e =>
    rw [hall] at hengines
    cases hengines
  | ok bs => exact ⟨bs, rfl⟩

/-- Lookups in a directory, whatever it was asked before.

The definitions stay as they were, and each alias gives the engine or the error that it gives at
first; so does a listing of all engines.  A lookup that fails changes nothing.  An engine that was
looked up is the one that every later lookup of its alias gives, and every later listing has it in
the place of the alias.  A listing has a different engine for each alias, in their order, and those
are what the aliases give from then on.  It succeeds if each alias gives an engine. -/
theorem lookups_after {c : Catalogue} {entries : Option (List Entry)} {requests : List Request}
    {fresh d : Directory} (hfresh : fresh = ofEntries c entries) (hd : d = fresh.after requests) :
    d.definitions = fresh.definitions ∧
    (∀ name, (d.get name).2.map Built.engine = (fresh.get name).2.map Built.engine) ∧
    d.all.2.map (List.map Built.engine) = fresh.all.2.map (List.map Built.engine) ∧
    (∀ name d' e, d.get name = (d', .error e) → d' = d) ∧
    (∀ name d' b, d.get name = (d', .ok b) → ∀ more,
      ((d'.after more).get name).2 = .ok b ∧
      ∀ bs, (d'.after more).all.2 = .ok bs → ∃ names : List String,
        fresh.aliases = .ok names ∧ name ∈ names ∧
        ∀ i : Nat, names[i]? = some name → bs[i]? = some b) ∧
    (∀ d' bs, d.all = (d', .ok bs) → ∃ names,
      fresh.aliases = .ok names ∧ names.Nodup ∧ (bs.map Built.number).Nodup ∧
      ∀ more, names.map (fun name => ((d'.after more).get name).2) = bs.map .ok) ∧
    ∀ names, fresh.aliases = .ok names → (∀ name ∈ names, ∃ b, (fresh.get name).2 = .ok b) →
      ∃ bs, d.all.2 = .ok bs := by
  have hsound : fresh.Sound := by
    rw [hfresh]
    exact sound_ofEntries c entries
  have hext : fresh.Extends d := by
    rw [hd]
    exact extends_after fresh requests
  have hdsound := hext.sound hsound
  have hengines := engines_all hdsound
  rw [hext.aliases_eq, funext hext.build_eq] at hengines
  refine ⟨hext.definitions_eq, fun name => ?_, hengines.trans (engines_all hsound).symm,
    fun name d' e hget => ?_, fun name d' b hget more => ?_, fun d' bs hall => ?_,
    fun names hnames hbuilt => ?_⟩
  · rw [engine_get hdsound, engine_get hsound, hext.build_eq]
  · have hsame := get_of_error (congrArg Prod.snd hget)
    rwa [hget] at hsame
  · have hkept := kept_of_get (congrArg Prod.snd hget)
    rw [hget] at hkept
    have hnext := (extends_get d name).trans (extends_after _ more)
    rw [hget] at hnext
    refine ⟨get_after hkept more, fun bs hall => ?_⟩
    rw [← hext.aliases_eq, ← hnext.aliases_eq]
    exact listed_of_kept (hnext.sound hdsound) ((extends_after d' more).kept name b hkept) hall
  · have hlisted := listed_all hdsound (congrArg Prod.snd hall)
    rwa [hall, hext.aliases_eq] at hlisted
  · refine exists_all hdsound (hext.aliases_eq.trans hnames) fun name hname => ?_
    obtain ⟨b, hb⟩ := hbuilt name hname
    refine ⟨b.engine, ?_⟩
    rw [hext.build_eq, ← engine_get hsound, hb]
    rfl

/-- Two engines are asked for in another order than they are defined in, after a failure: a listing
has them in the order of their definitions, and the aliases keep them. -/
theorem lookups_after_swapped : ∃ fresh d d' a b,
    fresh = ofEntries [] (some
      [.definition ⟨"first", Options.default, []⟩, .definition ⟨"second", Options.default, []⟩]) ∧
    d = fresh.after [.engine "third", .engine "second"] ∧ d.all = (d', .ok [a, b]) ∧
    a.number ≠ b.number ∧ ∀ more, ((d'.after more).get "first").2 = .ok a ∧
      ((d'.after more).get "second").2 = .ok b := by
  obtain ⟨fresh, hfresh⟩ : ∃ fresh, fresh = ofEntries [] (some
    [.definition ⟨"first", Options.default, []⟩,
      .definition ⟨"second", Options.default, []⟩]) := ⟨_, rfl⟩
  have hdefinitions : fresh.definitions =
      .ok [⟨"first", Options.default, []⟩, ⟨"second", Options.default, []⟩] := by
    have hnone : duplicates ["first", "second"] = [] := by simp [duplicates, Scope.freshNames]
    have hread : fresh.entries.mapM readEntry =
        .ok [⟨"first", Options.default, []⟩, ⟨"second", Options.default, []⟩] := by
      rw [hfresh]
      rfl
    rw [definitions, hread, Outcome.ok_bind, List.map_cons, List.map_cons, List.map_nil, hnone]
    rfl
  have hnames : fresh.aliases = .ok ["first", "second"] :=
    aliases_eq_ok.mpr ⟨_, hdefinitions, rfl⟩
  have hbuilt : ∀ name ∈ ["first", "second"], ∃ b, (fresh.get name).2 = .ok b := by
    have hfirst : ∃ b, (fresh.get "first").2 = .ok b := by
      simp only [get, hdefinitions]
      rw [hfresh]
      exact ⟨_, rfl⟩
    have hsecond : ∃ b, (fresh.get "second").2 = .ok b := by
      simp only [get, hdefinitions]
      rw [hfresh]
      exact ⟨_, rfl⟩
    simpa using ⟨hfirst, hsecond⟩
  obtain ⟨-, -, -, -, -, hlisted, hall⟩ :=
    lookups_after hfresh (rfl : _ = fresh.after [.engine "third", .engine "second"])
  obtain ⟨bs, hbs⟩ := hall _ hnames hbuilt
  obtain ⟨names, hnames', -, hnodup, hkept⟩ := hlisted _ bs (Prod.ext rfl hbs)
  obtain rfl : names = ["first", "second"] := Except.ok.inj (hnames'.symm.trans hnames)
  have hlength : bs.length = 2 := by simpa using (congrArg List.length (hkept [])).symm
  obtain ⟨a, b, rfl⟩ := List.length_eq_two.mp hlength
  refine ⟨fresh, _, _, a, b, hfresh, rfl, Prod.ext rfl hbs, by simpa using hnodup, fun more => ?_⟩
  simpa using hkept more

end Directory
end Quill
