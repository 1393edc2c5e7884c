import Majutsu.Cluster.GcCatalog
import Majutsu.Cluster.Simulator

/-!
# The index of the tombstones follows the files

A writer changes a file only when it owes the index nothing, and tells the index
what the file holds; triples over the files and the owed key show this for the
three writers. So away from the owed key the index equals the files, and a
refresh has read every other file as it is.
-/

namespace Majutsu.Cluster.GcCatalog

open Prog Relation

section Writers

/-- The other threads leave the files and the debt of the lock holder alone. -/
def Quiet (a b : World) : Prop := b.files = a.files ∧ b.owed = a.owed

def Allowed : Access → World → World → Prop
  | .removeFile _, w, _ | .writeFile _ _, w, _ => w.owed = none
  | .updateCatalog key item, w, _ =>
    w.files.lookup key = item ∧ (w.owed = none ∨ w.owed = some key)
  | _, _, _ => True

/-- Conditions on the files and the owed key. -/
abbrev Assertion : Type := Directory Key LocalGcItem → Option Key → Prop

variable {α β : Type} {P : Assertion} {Q : α → Assertion} {key : Key}

def Triple (P : Assertion) (p : Program α) (Q : α → Assertion) : Prop :=
  ∀ w, P w.files w.owed → Safe Access.Does Quiet Allowed (fun a t => Q a t.files t.owed) p w

def Clear : Assertion := fun _ owed => owed = none

theorem quiet_path {a b : World} (path : ReflTransGen Quiet a b) : Quiet a b := by
  induction path with
  | refl => exact ⟨rfl, rfl⟩
  | tail _ last ih => exact ⟨last.1.trans ih.1, last.2.trans ih.2⟩

theorem Triple.pure {a : α} (h : ∀ files owed, P files owed → Q a files owed) :
    Triple P (Pure.pure a : Program α) Q := by
  intro w hw t path
  obtain ⟨files, owed⟩ := quiet_path path
  rw [files, owed]
  exact h _ _ hw

theorem Triple.bind {Q' : β → Assertion} {p : Program α} {f : α → Program β} (first : Triple P p Q)
    (rest : ∀ a, Triple (Q a) (f a) Q') : Triple P (p >>= f) Q' := by
  intro w hw
  exact (first w hw).bind (fun a t holds => rest a t (holds t .refl))

theorem Triple.access {a : Access} {Q : a.Answer → Assertion}
    (acts : ∀ w, P w.files w.owed → ∀ o w', a.Does w o w' →
      Allowed a w w' ∧ ∀ r, o = some r → Q r w'.files w'.owed) :
    Triple P (GcCatalog.access a) Q := by
  intro w hw
  refine Safe.perform (fun t path o t' does => ?_)
  obtain ⟨files, owed⟩ := quiet_path path
  obtain ⟨allowed, after⟩ := acts t (by rwa [files, owed]) o t' does
  refine ⟨allowed, fun r hr u later => ?_⟩
  obtain ⟨files, owed⟩ := quiet_path later
  rw [files, owed]
  exact after r hr

theorem spec_fileExists : Triple P (access (.fileExists key))
    (fun found files owed => P files owed ∧ found = (files.lookup key).isSome) := by
  refine .access ?_
  rintro w hw _ _ ⟨rfl, rfl⟩
  refine ⟨trivial, ?_⟩
  rintro _ ⟨⟩
  exact ⟨hw, rfl⟩

theorem spec_readFile : Triple P (access (.readFile key))
    (fun found files owed => P files owed ∧ found = files.lookup key) := by
  refine .access ?_
  rintro w hw _ _ ⟨rfl, rfl⟩
  refine ⟨trivial, ?_⟩
  rintro _ ⟨⟩
  exact ⟨hw, rfl⟩

theorem spec_outside {a : Access} (outside : ∀ w o w', a.Does w o w' → w' = w)
    (free : ∀ w w', Allowed a w w') : Triple P (access a) (fun _ => P) := by
  refine .access (fun w hw o w' does => ⟨free w w', fun r _ => ?_⟩)
  rwa [outside w o w' does]

def Told (key : Key) (item : Option LocalGcItem) : Assertion :=
  fun files owed => files.lookup key = item ∧ (owed = none ∨ owed = some key)

theorem spec_removeFile : Triple Clear (access (.removeFile key)) (fun _ => Told key none) := by
  refine .access ?_
  rintro w clear _ _ ⟨rfl, rfl⟩
  refine ⟨clear, ?_⟩
  rintro _ ⟨⟩
  exact ⟨Finmap.lookup_erase key w.files, Or.inr rfl⟩

theorem spec_writeFile {item : LocalGcItem} :
    Triple Clear (access (.writeFile key item)) (fun _ => Told key (some item)) := by
  refine .access ?_
  rintro w clear _ _ ⟨-, rfl, rfl⟩
  refine ⟨clear, ?_⟩
  rintro _ ⟨⟩
  exact ⟨Finmap.lookup_insert w.files, Or.inr rfl⟩

theorem spec_updateCatalog {item : Option LocalGcItem} :
    Triple (Told key item) (access (.updateCatalog key item)) (fun _ => Clear) := by
  refine .access ?_
  rintro w told _ _ ⟨-, rfl, rfl⟩
  exact ⟨told, fun _ _ => rfl⟩

theorem Triple.conseq {P' : Assertion} {p : Program α} (h : Triple P p Q)
    (weaker : ∀ files owed, P' files owed → P files owed) : Triple P' p Q :=
  fun w hw => h w (weaker _ _ hw)

theorem spec_cancelLocalGc : Triple Clear (cancelLocalGc key) (fun _ => Clear) := by
  refine .bind spec_fileExists (fun found => ?_)
  cases found with
  | false =>
    refine .bind (Q := fun _ => Clear) (spec_updateCatalog.conseq ?_) (fun _ => .pure (fun _ _ h => h))
    rintro files owed ⟨clear, absent⟩
    exact ⟨Option.isSome_eq_false_iff.mp absent.symm |> Option.isNone_iff_eq_none.mp, Or.inl clear⟩
  | true =>
    refine .bind (spec_removeFile.conseq (fun _ _ h => h.1)) (fun _ => ?_)
    exact .bind spec_updateCatalog (fun _ => .pure (fun _ _ h => h))

variable {C : Config}

theorem spec_retainLocalAfterBackendDelete {sourceHost : String} :
    Triple Clear (retainLocalAfterBackendDelete C key sourceHost) (fun _ => Clear) := by
  refine .bind (spec_outside (fun _ _ _ does => does.1) (fun _ _ => trivial)) (fun stored => ?_)
  cases stored with
  | none => exact .bind spec_removeFile (fun _ => spec_updateCatalog)
  | some bytes =>
    refine .bind (spec_outside (fun _ _ _ does => does.1) (fun _ _ => trivial)) (fun now => ?_)
    refine .bind (spec_outside (fun _ _ _ does => does.1) (fun _ _ => trivial)) (fun generation => ?_)
    exact .bind spec_writeFile (fun _ => spec_updateCatalog)

theorem spec_collectPayload {tombstone : LocalGcItem} :
    Triple P (collectPayload C key tombstone) (fun _ => P) := by
  refine .bind (spec_outside (fun _ _ _ does => does.1) (fun _ _ => trivial)) (fun stored => ?_)
  cases stored with
  | none => exact .pure (fun _ _ h => h)
  | some bytes =>
    dsimp only
    split
    · refine .bind (spec_outside (fun _ _ _ does => does.1) (fun _ _ => trivial)) (fun _ => ?_)
      exact .pure (fun _ _ h => h)
    · exact .pure (fun _ _ h => h)

theorem spec_collect {now : Nat} {selected : LocalGcItem} :
    Triple Clear (collect C now key selected) (fun _ => Clear) := by
  refine .bind spec_readFile (fun current => ?_)
  cases current with
  | none =>
    refine .bind (Q := fun _ => Clear) (spec_updateCatalog.conseq ?_) (fun _ => .pure (fun _ _ h => h))
    exact fun files owed h => ⟨h.2.symm, Or.inl h.1⟩
  | some current =>
    dsimp only
    split
    · refine .bind (Q := fun _ => Clear) (spec_updateCatalog.conseq ?_) (fun _ => .pure (fun _ _ h => h))
      exact fun files owed h => ⟨h.2.symm, Or.inl h.1⟩
    · refine .bind (spec_outside (fun _ _ _ does => does.1) (fun _ _ => trivial)) (fun queued => ?_)
      cases queued with
      | true => exact .pure (fun _ _ h => h.1)
      | false =>
        refine .bind spec_collectPayload (fun removed => ?_)
        refine .bind (spec_removeFile.conseq (fun _ _ h => h.1)) (fun _ => ?_)
        exact .bind spec_updateCatalog (fun _ => .pure (fun _ _ h => h))

theorem spec_body (writer : Writer) : Triple Clear (writer.body C) (fun _ => Clear) := by
  cases writer with
  | cancel key => exact .bind spec_cancelLocalGc (fun _ => .pure (fun _ _ h => h))
  | retain key sourceHost => exact spec_retainLocalAfterBackendDelete
  | collect now key selected => exact .bind spec_collect (fun _ => .pure (fun _ _ h => h))

end Writers

section Invariant

open LocalGcCatalog

def Agrees (owed : Option Key) (d e : Directory Key LocalGcItem) : Prop :=
  ∀ key, owed ≠ some key → d.lookup key = e.lookup key

/-- A refresh has read the files as they are, away from the owed key. What it has found are
files of one moment, either now or before the outstanding change. -/
structure Scanning (w : World) (scan : Scan) : Prop where
  coherent : Coherent scan.found
  read : ∀ key ∈ scan.seen, w.owed ≠ some key →
    scan.found.items.lookup key = w.files.lookup key
  unread : ∀ key, key ∉ scan.seen → scan.found.items.lookup key = none
  expected : ∀ key, w.owed ≠ some key → key ∈ w.files → key ∈ scan.still
  fits : ∃ before, Agrees w.owed before w.files ∧ sizes before ≤ u64Max ∧
    (Directory.Within scan.found.items w.files ∨ Directory.Within scan.found.items before)

structure Good (w : World) : Prop where
  fits : sizes w.files ≤ u64Max
  cached : ∀ c, w.cache = some c → Coherent c ∧ Agrees w.owed c.items w.files
  scanning : ∀ scan, w.scan = some scan → Scanning w scan

variable {w : World} {key : Key}

theorem sizes_erase_le (files : Directory Key LocalGcItem) (key : Key) :
    sizes (files.erase key) ≤ sizes files := by
  have := Directory.total_erase LocalGcItem.size files key
  simp only [sizes]
  omega

theorem Good.changeFile (good : Good w) (clear : w.owed = none)
    {files : Directory Key LocalGcItem} (fits : sizes files ≤ u64Max)
    (others : ∀ k, k ≠ key → files.lookup k = w.files.lookup k) : Good (w.changeFile key files) := by
  have agrees {d : Directory Key LocalGcItem} (h : Agrees w.owed d w.files) :
      Agrees (some key) d files := by
    intro k hk
    rw [others k (fun same => hk (by rw [same])), h k (by simp [clear])]
  refine ⟨fits, fun c hc => ?_, fun scan hs => ?_⟩
  · obtain ⟨coherent, same⟩ := good.cached c hc
    exact ⟨coherent, agrees same⟩
  · obtain ⟨old, here, rfl⟩ := Option.map_eq_some_iff.mp hs
    obtain ⟨coherent, read, unread, expected, before, same, room, within⟩ := good.scanning old here
    have whole : before = w.files := Finmap.ext_lookup (fun k => same k (by simp [clear]))
    refine ⟨coherent, fun k hk other => ?_, unread, fun k other hk => ?_, w.files, ?_, good.fits, ?_⟩
    · have differ : k ≠ key := fun heq => other (by rw [heq]; rfl)
      rw [read k hk (by simp [clear])]
      exact (others k differ).symm
    · have differ : k ≠ key := fun heq => other (by rw [heq]; rfl)
      refine Finset.mem_erase.mpr ⟨differ, expected k (by simp [clear]) ?_⟩
      rw [← Finmap.lookup_isSome] at hk ⊢
      rwa [← others k differ]
    · exact agrees (fun _ _ => rfl)
    · rw [whole, or_self] at within
      exact Or.inr within

theorem Good.updateCatalog (good : Good w) {item : Option LocalGcItem} (free : w.scan = none)
    (told : Told key item w.files w.owed) : Good (w.updateCatalog key item) := by
  refine ⟨good.fits, fun c hc => ?_, fun scan hs => ?_⟩
  · obtain ⟨old, here, rfl⟩ := Option.map_eq_some_iff.mp hc
    obtain ⟨coherent, same⟩ := good.cached old here
    have all : (old.update key item).items = w.files := by
      apply Finmap.ext_lookup
      intro k
      rw [lookup_update]
      split
      · next heq => rw [heq, told.1]
      · next differ =>
        refine same k ?_
        rintro owed
        rcases told.2 with clear | mine
        · rw [clear] at owed
          cases owed
        · exact differ (Option.some.inj (owed.symm.trans mine))
    refine ⟨?_, fun k _ => by rw [all]; rfl⟩
    cases item with
    | none => exact coherent.remove
    | some item => exact coherent.insert (by rw [← LocalGcCatalog.update, all]; exact good.fits)
  · rw [World.updateCatalog] at hs
    rw [free] at hs
    cases hs

theorem Good.openDir (good : Good w) : Good w.openDir := by
  refine ⟨good.fits, good.cached, ?_⟩
  rintro _ ⟨⟩
  refine ⟨coherent_empty, by simp, by simp [LocalGcCatalog.empty], fun k _ hk => ?_, w.files,
    fun _ _ => rfl, good.fits, Or.inl ?_⟩
  · exact Finmap.mem_keys.mpr hk
  · intro k v found
    simp [LocalGcCatalog.empty] at found

theorem within_insert {found before files : Directory Key LocalGcItem} {owed : Option Key}
    {item : LocalGcItem} (agrees : Agrees owed before files) (here : files.lookup key = some item)
    (within : Directory.Within found files ∨ Directory.Within found before) :
    Directory.Within ((found.erase key).insert key item) files ∨
      Directory.Within ((found.erase key).insert key item) before := by
  have extend {e : Directory Key LocalGcItem} (there : e.lookup key = some item)
      (others : ∀ k v, k ≠ key → found.lookup k = some v → e.lookup k = some v) :
      Directory.Within ((found.erase key).insert key item) e := by
    intro k v hv
    rw [Directory.lookup_insert_ite, Directory.lookup_erase_ite] at hv
    split at hv
    · next same => rw [same, there, hv]
    · next same => exact others k v same hv
  rcases within with inFiles | inBefore
  · exact Or.inl (extend here (fun k v _ => inFiles k v))
  · by_cases mine : owed = some key
    · refine Or.inl (extend here (fun k v differ hv => ?_))
      rw [← agrees k (fun other => differ (Option.some.inj (other.symm.trans mine)))]
      exact inBefore k v hv
    · exact Or.inr (extend ((agrees key mine).trans here) (fun k v _ => inBefore k v))

theorem Good.visit (good : Good w) {scan : Scan} (here : w.scan = some scan) (key : Key) :
    Good (w.visit scan key) := by
  obtain ⟨coherent, read, unread, expected, before, agrees, room, within⟩ := good.scanning scan here
  refine ⟨good.fits, good.cached, ?_⟩
  rintro _ ⟨⟩
  cases file : w.files.lookup key with
  | none =>
    refine ⟨coherent, fun k hk other => ?_, fun k hk => ?_, expected, before, agrees, room, within⟩
    · rcases Finset.mem_insert.mp hk with rfl | hk
      · by_cases seen : k ∈ scan.seen
        · exact read k seen other
        · exact (unread k seen).trans file.symm
      · exact read k hk other
    · exact unread k (fun seen => hk (Finset.mem_insert_of_mem seen))
  | some item =>
    have lookup (k : Key) : (scan.found.insert key item).items.lookup k =
        if k = key then some item else scan.found.items.lookup k :=
      lookup_update scan.found key k (some item)
    have inside := within_insert agrees file within
    rw [← insert_items] at inside
    have fits : sizes (scan.found.insert key item).items ≤ u64Max :=
      inside.elim (fun h => (h.total_le _).trans good.fits) (fun h => (h.total_le _).trans room)
    refine ⟨coherent.insert fits, fun k hk other => ?_, fun k hk => ?_, expected, before, agrees,
      room, inside⟩
    · change (scan.found.insert key item).items.lookup k = w.files.lookup k
      rw [lookup]
      split
      · next same => rw [same, file]
      · next differ => exact read k ((Finset.mem_insert.mp hk).resolve_left differ) other
    · change (scan.found.insert key item).items.lookup k = none
      rw [lookup, if_neg (fun same => hk (by rw [same]; exact Finset.mem_insert_self ..))]
      exact unread k (fun seen => hk (Finset.mem_insert_of_mem seen))

/-- A refresh that is through has read every file but the one that is being changed. -/
theorem Good.publish (good : Good w) {scan : Scan} (here : w.scan = some scan)
    (through : scan.still ⊆ scan.seen) : Good (w.publish scan) := by
  obtain ⟨coherent, read, unread, expected, -⟩ := good.scanning scan here
  refine ⟨good.fits, ?_, nofun⟩
  rintro _ ⟨⟩
  refine ⟨coherent, fun k other => ?_⟩
  by_cases seen : k ∈ scan.seen
  · exact read k seen other
  · rw [unread k seen, eq_comm]
    exact Finmap.lookup_eq_none.mpr (fun file => seen (through (expected k other file)))

theorem Good.access {a : Access} {o : Option a.Answer} {w' : World} (good : Good w)
    (does : a.Does w o w') (allowed : Allowed a w w') : Good w' := by
  cases a with
  | removeFile key =>
    obtain ⟨rfl, -⟩ := does
    refine good.changeFile allowed ((sizes_erase_le _ _).trans good.fits) (fun k other => ?_)
    exact Finmap.lookup_erase_ne other
  | writeFile key item =>
    obtain ⟨room, rfl, -⟩ := does
    refine good.changeFile allowed room (fun k other => ?_)
    exact Finmap.lookup_insert_of_ne _ other
  | updateCatalog key item =>
    obtain ⟨free, rfl, -⟩ := does
    exact good.updateCatalog free allowed
  | _ =>
    obtain ⟨rfl, -⟩ := does
    exact good

structure Sound (sys : System) : Prop where
  good : Good sys.world
  clear : sys.holder = none → sys.world.owed = none
  safe : ∀ p, sys.holder = some p →
    Safe Access.Does Quiet Allowed (fun _ t => Clear t.files t.owed) p sys.world

variable {C : Config} {sys sys' : System} {event : Event}

theorem Sound.initial (init : Initial sys) : Sound sys := by
  obtain ⟨fits, unloaded, unscanned, clear, free⟩ := init
  refine ⟨⟨fits, ?_, ?_⟩, fun _ => clear, ?_⟩
  · simp [unloaded]
  · simp [unscanned]
  · simp [free]

theorem Sound.refresh {w' : World} {holder : Option (Program Unit)} (sound : Sound ⟨w, holder⟩)
    (good : Good w') (quiet : Quiet w w') : Sound ⟨w', holder⟩ := by
  refine ⟨good, fun none => ?_, fun p hp => (sound.safe p hp).move (.single quiet)⟩
  exact quiet.2.trans (sound.clear none)

theorem Sound.step (sound : Sound sys) (step : Step C sys event sys') : Sound sys' := by
  cases step with
  | enter writer =>
    refine ⟨sound.good, nofun, ?_⟩
    rintro _ ⟨⟩
    exact spec_body writer _ (sound.clear rfl)
  | access step =>
    obtain ⟨allowed, rest⟩ := (sound.safe _ rfl).step step
    refine ⟨sound.good.access step.does allowed, nofun, ?_⟩
    rintro _ ⟨⟩
    exact rest
  | leave => exact ⟨sound.good, fun _ => sound.safe _ rfl _ .refl, nofun⟩
  | openDir _ => exact sound.refresh sound.good.openDir ⟨rfl, rfl⟩
  | visit key here => exact sound.refresh (sound.good.visit here key) ⟨rfl, rfl⟩
  | publish here through => exact sound.refresh (sound.good.publish here through) ⟨rfl, rfl⟩

/-- In every interleaving the parts of a loaded index describe the same items, and the index
equals the tombstone files unless a writer has yet to tell it about a change. -/
theorem catalog_follows_files {events : List Event} (init : Initial sys)
    (run : Machine.Run (Step C) sys events sys') {c : LocalGcCatalog}
    (loaded : sys'.world.cache = some c) :
    Coherent c ∧ (sys'.world.owed = none → c.items = sys'.world.files) := by
  have sound := run.invariant (fun step sound => Sound.step sound step) (Sound.initial init)
  obtain ⟨coherent, agrees⟩ := sound.good.cached c loaded
  refine ⟨coherent, fun clear => Finmap.ext_lookup (fun key => agrees key ?_)⟩
  rw [clear]
  exact nofun

end Invariant

namespace Fixture

def tombstone : LocalGcItem :=
  { generation := 0, sourceHost := "h", digest := "", size := 3, deletedFromBackendAt := 1
    deleteAfter := 2 }

def start : System where
  world := { files := Finmap.singleton "h/a" tombstone, cache := none, scan := none, owed := none }
  holder := none

/-- A refresh reads a tombstone that a writer then removes, and ends before the writer can tell. -/
def overlap : List Event :=
  [.openDir, .enter (.cancel "h/a"), .visit "h/a", .access (.fileExists "h/a"),
    .access (.removeFile "h/a"), .publish, .access (.updateCatalog "h/a" none), .leave]

def index : LocalGcCatalog := (LocalGcCatalog.empty.insert "h/a" tombstone).update "h/a" none

def last : System where
  world := { files := start.world.files.erase "h/a", cache := some index, scan := none, owed := none }
  holder := none

theorem overlap_run : Machine.Run (Step sample) start overlap last := by
  refine .cons (.openDir rfl) (.cons (.enter _) (.cons (.visit _ rfl) ?_))
  refine .cons (.access (.act ⟨rfl, rfl⟩)) (.cons (.access (.act ⟨rfl, rfl⟩)) ?_)
  refine .cons (.publish rfl (by decide +kernel)) ?_
  exact .cons (.access (.act ⟨rfl, rfl, rfl⟩)) (.cons .leave .nil)

end Fixture

open Fixture in
theorem catalog_follows_overlap : index.Coherent ∧ index.items = start.world.files.erase "h/a" := by
  have initial : Initial start := ⟨by decide +kernel, rfl, rfl, rfl, rfl⟩
  obtain ⟨coherent, same⟩ := catalog_follows_files initial overlap_run rfl
  exact ⟨coherent, same rfl⟩

end Majutsu.Cluster.GcCatalog
