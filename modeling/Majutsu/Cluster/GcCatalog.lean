import Majutsu.Cluster.State
import Majutsu.Lib.Interaction
import Majutsu.Lib.Machine

/-!
# The index of the tombstones, step by step

The tombstone files are the truth; the index in memory follows them. A writer
holds `durable_lock`, changes a file and then takes the catalog lock to update
the index. A refresh holds the catalog lock alone and reads the directory entry
by entry while writers change it. Here a single file access is a step, so that
a refresh may come between the two halves of a writer.
-/

namespace Majutsu.Cluster

structure LocalGcCatalog where
  items : Directory Key LocalGcItem
  deletedAt : Finset (Nat × Key)
  deleteAfter : Finset (Nat × Key)
  bytes : Nat

namespace LocalGcCatalog

def empty : LocalGcCatalog := { items := ∅, deletedAt := ∅, deleteAfter := ∅, bytes := 0 }

def remove (c : LocalGcCatalog) (key : Key) : LocalGcCatalog :=
  match c.items.lookup key with
  | none => c
  | some item =>
    { items := c.items.erase key
      deletedAt := c.deletedAt.erase (item.deletedFromBackendAt, key)
      deleteAfter := c.deleteAfter.erase (item.deleteAfter, key)
      bytes := c.bytes - item.size }

def insert (c : LocalGcCatalog) (key : Key) (item : LocalGcItem) : LocalGcCatalog :=
  let c := c.remove key
  { items := c.items.insert key item
    deletedAt := Insert.insert (item.deletedFromBackendAt, key) c.deletedAt
    deleteAfter := Insert.insert (item.deleteAfter, key) c.deleteAfter
    bytes := saturatingAdd c.bytes item.size }

/-- `update_local_gc_catalog` on a catalog that is loaded. -/
def update (c : LocalGcCatalog) (key : Key) : Option LocalGcItem → LocalGcCatalog
  | some item => c.insert key item
  | none => c.remove key

/-- The bytes of all payloads together that a directory of tombstones speaks of. -/
def sizes (items : Directory Key LocalGcItem) : Nat := Directory.total LocalGcItem.size items

/-- All parts of the index describe the same items. -/
structure Coherent (c : LocalGcCatalog) : Prop where
  deletedAt : ∀ time key, (time, key) ∈ c.deletedAt ↔
    ∃ item, c.items.lookup key = some item ∧ item.deletedFromBackendAt = time
  deleteAfter : ∀ time key, (time, key) ∈ c.deleteAfter ↔
    ∃ item, c.items.lookup key = some item ∧ item.deleteAfter = time
  bytes : c.bytes = sizes c.items

variable {c : LocalGcCatalog} {key : Key} {item : LocalGcItem}

theorem coherent_empty : Coherent empty where
  deletedAt := by simp [empty]
  deleteAfter := by simp [empty]
  bytes := by simp [empty, sizes, Directory.total]

@[simp] theorem remove_items : (c.remove key).items = c.items.erase key := by
  unfold remove
  split
  · next absent =>
    apply Finmap.ext_lookup
    intro j
    rw [Directory.lookup_erase_ite]
    split
    · next same => rw [same, absent]
    · rfl
  · rfl

@[simp] theorem insert_items : (c.insert key item).items = (c.items.erase key).insert key item := by
  simp [insert]

theorem mem_erase_time {time : LocalGcItem → Nat} {times : Finset (Nat × Key)}
    (describes : ∀ at₁ k, (at₁, k) ∈ times ↔ ∃ i, c.items.lookup k = some i ∧ time i = at₁)
    (found : c.items.lookup key = some item) (at₁ : Nat) (k : Key) :
    (at₁, k) ∈ times.erase (time item, key) ↔
      ∃ i, (c.items.erase key).lookup k = some i ∧ time i = at₁ := by
  rw [Finset.mem_erase, describes, Directory.lookup_erase_ite]
  by_cases same : k = key
  · subst same
    simp [found, eq_comm]
  · simp [same]

theorem mem_insert_time {time : LocalGcItem → Nat} {times : Finset (Nat × Key)}
    {items : Directory Key LocalGcItem} (absent : items.lookup key = none)
    (describes : ∀ at₁ k, (at₁, k) ∈ times ↔ ∃ i, items.lookup k = some i ∧ time i = at₁)
    (at₁ : Nat) (k : Key) :
    (at₁, k) ∈ Insert.insert (time item, key) times ↔
      ∃ i, (items.insert key item).lookup k = some i ∧ time i = at₁ := by
  rw [Finset.mem_insert, describes, Directory.lookup_insert_ite]
  by_cases same : k = key
  · subst same
    simp [absent, eq_comm]
  · simp [same]

theorem Coherent.remove (h : Coherent c) : Coherent (c.remove key) := by
  unfold LocalGcCatalog.remove
  split
  · exact h
  · next item found =>
    refine ⟨mem_erase_time h.deletedAt found, mem_erase_time h.deleteAfter found, ?_⟩
    have erased := Directory.total_erase LocalGcItem.size c.items key
    have weight : Directory.weightAt LocalGcItem.size c.items key = item.size := by
      simp [Directory.weightAt, found]
    simp only [h.bytes, sizes]
    omega

theorem Coherent.insert (h : Coherent c) (room : sizes (c.insert key item).items ≤ u64Max) :
    Coherent (c.insert key item) := by
  have absent : (c.remove key).items.lookup key = none := by simp
  have rest : Coherent (c.remove key) := h.remove
  refine ⟨mem_insert_time absent rest.deletedAt, mem_insert_time absent rest.deleteAfter, ?_⟩
  have inserted := Directory.total_insert LocalGcItem.size (c.remove key).items key item
  have weight : Directory.weightAt LocalGcItem.size (c.remove key).items key = 0 := by
    simp [Directory.weightAt]
  rw [insert_items, ← remove_items] at room ⊢
  simp only [sizes] at room ⊢
  change saturatingAdd (c.remove key).bytes item.size = _
  rw [rest.bytes, sizes, saturatingAdd]
  omega

theorem lookup_update (c : LocalGcCatalog) (key k : Key) (value : Option LocalGcItem) :
    (c.update key value).items.lookup k = if k = key then value else c.items.lookup k := by
  cases value with
  | none => simp only [update, remove_items, Directory.lookup_erase_ite]
  | some item =>
    simp only [update, insert_items, Directory.lookup_insert_ite, Directory.lookup_erase_ite]
    split <;> rfl

end LocalGcCatalog

namespace GcCatalog

open Prog

/-- A refresh in progress: what it has found, the names it has read, and the names of the files
that have stood still since it opened the directory. `read_dir` returns all of these; of the
others nothing is known. -/
structure Scan where
  found : LocalGcCatalog
  seen : Finset Key
  still : Finset Key

/-- `files` are on disk. A refresh holds the catalog lock as long as `scan` is there. `owed` is
the key whose file has changed while the index has not been told yet. -/
structure World where
  files : Directory Key LocalGcItem
  cache : Option LocalGcCatalog
  scan : Option Scan
  owed : Option Key

namespace World

def changeFile (w : World) (key : Key) (files : Directory Key LocalGcItem) : World :=
  { w with
    files
    owed := some key
    scan := w.scan.map (fun scan => { scan with still := scan.still.erase key }) }

/-- `update_local_gc_catalog`. -/
def updateCatalog (w : World) (key : Key) (item : Option LocalGcItem) : World :=
  { w with cache := w.cache.map (·.update key item), owed := none }

def openDir (w : World) : World :=
  { w with scan := some { found := .empty, seen := ∅, still := w.files.keys } }

/-- One round of the loop of `load_local_gc_catalog`; a file that is gone is skipped. -/
def visit (w : World) (scan : Scan) (key : Key) : World :=
  let found := match w.files.lookup key with
    | none => scan.found
    | some item => scan.found.insert key item
  { w with scan := some { scan with found, seen := insert key scan.seen } }

def publish (w : World) (scan : Scan) : World := { w with cache := some scan.found, scan := none }

end World

inductive Access where
  | fileExists (key : Key)
  | readFile (key : Key)
  | removeFile (key : Key)
  | writeFile (key : Key) (item : LocalGcItem)
  | updateCatalog (key : Key) (item : Option LocalGcItem)
  | payload (key : Key)
  | removePayload (key : Key)
  | queued (key : Key)
  | utcNow
  | newGeneration

def Access.Answer : Access → Type
  | fileExists _ | queued _ => Bool
  | readFile _ => Option LocalGcItem
  | payload _ => Option Bytes
  | utcNow | newGeneration => Nat
  | removeFile _ | writeFile _ _ | updateCatalog _ _ | removePayload _ => Unit

/-- What an access does. The store, the queue and the clock are not part of the world: they may
answer anything. The payloads that tombstones speak of fit into a file system. -/
def Access.Does : (a : Access) → World → Option a.Answer → World → Prop
  | fileExists key, w, o, w' => w' = w ∧ o = some (w.files.lookup key).isSome
  | readFile key, w, o, w' => w' = w ∧ o = some (w.files.lookup key)
  | removeFile key, w, o, w' => w' = w.changeFile key (w.files.erase key) ∧ o = some ()
  | writeFile key item, w, o, w' => LocalGcCatalog.sizes (w.files.insert key item) ≤ u64Max ∧
      w' = w.changeFile key (w.files.insert key item) ∧ o = some ()
  | updateCatalog key item, w, o, w' => w.scan = none ∧ w' = w.updateCatalog key item ∧
      o = some ()
  | payload _, w, o, w' | removePayload _, w, o, w' | queued _, w, o, w' | utcNow, w, o, w'
  | newGeneration, w, o, w' => w' = w ∧ ∃ answer, o = some answer

abbrev Program (α : Type) : Type := Prog Access.Answer α

def access (a : Access) : Program a.Answer := Prog.perform a

def cancelLocalGc (key : Key) : Program Bool := do
  let found : Bool ← access (.fileExists key)
  if !found then do
    let _ ← access (.updateCatalog key none)
    pure false
  else do
    let _ ← access (.removeFile key)
    let _ ← access (.updateCatalog key none)
    pure true

def retainLocalAfterBackendDelete (C : Config) (key : Key) (sourceHost : String) :
    Program Unit := do
  let stored : Option Bytes ← access (.payload key)
  match stored with
  | none => do
    let _ ← access (.removeFile key)
    access (.updateCatalog key none)
  | some bytes => do
    let now : Nat ← access .utcNow
    let generation : Nat ← access .newGeneration
    let retained : LocalGcItem :=
      { generation
        sourceHost
        digest := C.digest bytes
        size := bytes.length
        deletedFromBackendAt := now
        deleteAfter := now + C.localDeleteGrace }
    let _ ← access (.writeFile key retained)
    access (.updateCatalog key (some retained))

/-- The payload of a tombstone, removed if it is still the payload that was deleted. -/
def collectPayload (C : Config) (key : Key) (tombstone : LocalGcItem) : Program Bool := do
  let stored : Option Bytes ← access (.payload key)
  match stored with
  | none => pure false
  | some bytes =>
    if C.digest bytes = tombstone.digest then do
      let _ ← access (.removePayload key)
      pure true
    else pure false

/-- One round of the loop of `run_local_gc`, from the time it has the lock. -/
def collect (C : Config) (now : Nat) (key : Key) (selected : LocalGcItem) : Program Bool := do
  let current : Option LocalGcItem ← access (.readFile key)
  match current with
  | none => do
    let _ ← access (.updateCatalog key none)
    pure false
  | some current =>
    if current.generation ≠ selected.generation ∨ now < current.deleteAfter then do
      let _ ← access (.updateCatalog key (some current))
      pure false
    else do
      let queued : Bool ← access (.queued key)
      if queued then pure false
      else do
        let removed ← collectPayload C key current
        let _ ← access (.removeFile key)
        let _ ← access (.updateCatalog key none)
        pure removed

/-- The code that holds `durable_lock`. -/
inductive Writer where
  | cancel (key : Key)
  | retain (key : Key) (sourceHost : String)
  | collect (now : Nat) (key : Key) (selected : LocalGcItem)

def Writer.body (C : Config) : Writer → Program Unit
  | cancel key => do
    let _ ← cancelLocalGc key
    pure ()
  | retain key sourceHost => retainLocalAfterBackendDelete C key sourceHost
  | collect now key selected => do
    let _ ← GcCatalog.collect C now key selected
    pure ()

/-- `holder` is what is left to do for the holder of `durable_lock`. -/
structure System where
  world : World
  holder : Option (Program Unit)

inductive Event where
  | enter (writer : Writer)
  | access (a : Access)
  | leave
  | openDir
  | visit (key : Key)
  | publish

/-- A writer gets the lock, accesses a file or the index, or releases the lock; a refresh opens
the directory, reads an entry, or ends when `read_dir` may be through. -/
inductive Step (C : Config) : System → Event → System → Prop where
  | enter {w : World} (writer : Writer) :
      Step C ⟨w, none⟩ (.enter writer) ⟨w, some (writer.body C)⟩
  | access {w w' : World} {a : Access} {r : a.Answer} {p p' : Program Unit} :
      Prog.Step Access.Does p w a r p' w' → Step C ⟨w, some p⟩ (.access a) ⟨w', some p'⟩
  | leave {w : World} : Step C ⟨w, some (.ret ())⟩ .leave ⟨w, none⟩
  | openDir {w : World} {holder : Option (Program Unit)} :
      w.scan = none → Step C ⟨w, holder⟩ .openDir ⟨w.openDir, holder⟩
  | visit {w : World} {holder : Option (Program Unit)} {scan : Scan} (key : Key) :
      w.scan = some scan → Step C ⟨w, holder⟩ (.visit key) ⟨w.visit scan key, holder⟩
  | publish {w : World} {holder : Option (Program Unit)} {scan : Scan} :
      w.scan = some scan → scan.still ⊆ scan.seen →
      Step C ⟨w, holder⟩ .publish ⟨w.publish scan, holder⟩

structure Initial (sys : System) : Prop where
  fits : LocalGcCatalog.sizes sys.world.files ≤ u64Max
  unloaded : sys.world.cache = none
  idle : sys.world.scan = none ∧ sys.world.owed = none ∧ sys.holder = none

end GcCatalog

end Majutsu.Cluster
