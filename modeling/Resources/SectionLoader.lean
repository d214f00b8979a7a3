import Mathlib.Data.List.Nodup
import Mathlib.Data.Rat.Defs
import Resources.Runs

/-!
# `SectionLoader`

Sections are swf files. The loader shows one at a time, keeps every swf
that it has loaded, and takes a new `load` for the end of one that has not
completed. In every run it shows what was asked for last, whether it comes
from the cache or not (`shows_latest`). A swf that completes is kept under
the file of the latest `load`, which may have had none: this is all that
can make a file be loaded again (`loads_once`).

Loads that fail are left out, as are the calls that a section makes while
it is started.
-/

namespace Resources

namespace SectionLoader

/-- What is asked for: a section by its `id`, the `file` that it is in, and
what it is started with. Fields that are not set are null; `subpage` is the
field `section`, under the name it has in `ISection`. -/
structure SectionLoadObject where
  id : Option String
  file : Option String
  config : Option String
  subpage : Option String
deriving DecidableEq

/-- What is behind a file: whether its content is a `MovieClip`, and which of
the calls that the loader makes of it do not end in an error. -/
structure Swf where
  isMovieClip : Bool
  setSize : Bool
  startup : Bool
  restart : Bool
  standby : Bool

/-- What the loader tells others: its events, and its calls of a swf. -/
inductive Out where
  | LOAD_ERROR (obj : SectionLoadObject)
  | LOADING (value : ℚ) (pagename : Option String)
  | COMPLETE (pageName : Option String)
  | setSize (ldr : ℕ) (size : Option (ℚ × ℚ))
  | startup (ldr : ℕ) (config subpage : Option String)
  | restart (ldr : ℕ) (config subpage : Option String)
  | standby (ldr : ℕ)
deriving DecidableEq

/-- The fields of the loader, and what the player knows of the `Loader`s it has
made. These are numbers, in the order in which they are made. -/
structure State where
  /-- `w` and `h`; they are not numbers before `setSize`. -/
  size : Option (ℚ × ℚ)
  swfLoader : Option ℕ
  loadedSwfArray : List (Option String × ℕ)
  loadObj : Option SectionLoadObject
  loading : Bool
  /-- The children of the sprite. -/
  children : List ℕ
  /-- Every `Loader` there has been, with the file it was given. -/
  loaders : List String
  /-- The loaders that have content. -/
  completed : List ℕ
  /-- The loaders that are listened to. -/
  listeners : List ℕ
  out : List Out

namespace State

def tell (o : Out) (s : State) : State := { s with out := s.out ++ [o] }

/-- The `swfLoader.content as MovieClip` of the source, unless it is null: the
content is there once the loader has completed. -/
def movieClip (content : String → Swf) (s : State) (ldr : ℕ) : Option Swf :=
  if ldr ∈ s.completed then (s.loaders[ldr]?.map content).filter (·.isMovieClip) else none

/-- The size is kept for the sections to come, and handed on to the one that is
shown. Where its `setSize` fails, the error is caught. -/
def setSize (content : String → Swf) (w h : ℚ) (s : State) : State :=
  let s := { s with size := some (w, h) }
  match s.swfLoader with
  | none => s
  | some ldr =>
      match s.movieClip content ldr with
      | some MC => if MC.setSize then s.tell (.setSize ldr s.size) else s
      | none => s

/-- The loop over the stored swfs does not stop at the first one it finds, so
that the last entry for the file counts. -/
def getStoredClip (file : String) (s : State) : Option ℕ :=
  s.loadedSwfArray.foldl (fun clip entry => if entry.1 = some file then some entry.2 else clip) none

/-- A swf gets its size and is then started or restarted. One `try` is around
both, so that it is not started where its `setSize` fails; `COMPLETE` comes in
any case. -/
def initSWF (content : String → Swf) (ldr : ℕ) (firstLoad : Bool) (s : State) : State :=
  match s.movieClip content ldr with
  | none => s
  | some targetMC =>
      let config := s.loadObj.bind (·.config)
      let subpage := s.loadObj.bind (·.subpage)
      let s :=
        if targetMC.setSize then
          let s := s.tell (.setSize ldr s.size)
          if firstLoad then
            if targetMC.startup then s.tell (.startup ldr config subpage) else s
          else if targetMC.restart then s.tell (.restart ldr config subpage)
          else s
        else s
      s.tell (.COMPLETE (s.loadObj.bind (·.id)))

def addToDisplay (ldr : ℕ) (s : State) : State := { s with children := [ldr] }

def loadNewSWF (file : String) (s : State) : State :=
  { s with
    loading := true
    swfLoader := some s.loaders.length
    loaders := s.loaders ++ [file]
    listeners := s.listeners ++ [s.loaders.length] }

def cancelLoad (s : State) : State :=
  let s :=
    match s.swfLoader with
    | some ldr => { s with listeners := s.listeners.erase ldr, swfLoader := none }
    | none => s
  { s with loading := false }

/-- The swf that was shown last is put into standby mode. After a load that was
cancelled there is none, since `cancelLoad` has cleared `swfLoader`. -/
def standbyLast (content : String → Swf) (s : State) : State :=
  match s.swfLoader with
  | none => s
  | some ldr =>
      match s.movieClip content ldr with
      | some MC => if MC.standby then s.tell (.standby ldr) else s
      | none => s

/-- One `load`. It takes over the object even where this has no file and is
answered by `LOAD_ERROR`: the load in progress then goes on, under another
object. -/
def load (content : String → Swf) (obj : SectionLoadObject) (s : State) : State :=
  let s := { s with loadObj := some obj }
  match obj.file with
  | none => s.tell (.LOAD_ERROR obj)
  | some file =>
      let s := if s.loading then s.cancelLoad else s
      let s := s.standbyLast content
      match s.getStoredClip file with
      | some storedClip =>
          let s := s.addToDisplay storedClip
          let s := { s with swfLoader := some storedClip }
          s.initSWF content storedClip false
      | none => s.loadNewSWF file

/-- The handler of `COMPLETE`, where `ldr` is `e.target.loader`. The swf is
stored under the file of the object that was asked for last. -/
def loaded (content : String → Swf) (ldr : ℕ) (s : State) : State :=
  let s :=
    match s.swfLoader with
    | some l => { s with listeners := s.listeners.erase l }
    | none => s
  let s := { s with
    loading := false
    loadedSwfArray := s.loadedSwfArray ++ [(s.loadObj.bind (·.file), ldr)] }
  let s := s.addToDisplay ldr
  s.initSWF content ldr true

def handleLoading (bytesLoaded bytesTotal : ℚ) (s : State) : State :=
  s.tell (.LOADING (bytesLoaded / bytesTotal) (s.loadObj.bind (·.id)))

end State

def new : State where
  size := none
  swfLoader := none
  loadedSwfArray := []
  loadObj := none
  loading := false
  children := []
  loaders := []
  completed := []
  listeners := []
  out := []

inductive Event where
  | load (obj : SectionLoadObject)
  | setSize (w h : ℚ)
  | progress (ldr : ℕ) (bytesLoaded bytesTotal : ℚ)
  | complete (ldr : ℕ)

/-- The events of a loader come as long as it is listened to; one that has
been closed has no more of them. -/
def step (content : String → Swf) (s : State) : Event → Option State
  | .load obj => some (s.load content obj)
  | .setSize w h => some (s.setSize content w h)
  | .progress ldr bytesLoaded bytesTotal =>
      if ldr ∈ s.listeners then some (s.handleLoading bytesLoaded bytesTotal) else none
  | .complete ldr =>
      if ldr ∈ s.listeners then
        some ({ s with completed := s.completed ++ [ldr] }.loaded content ldr)
      else none

variable {content : String → Swf} {s s' : State}

/-! ## What is shown -/

/-- The file that was asked for last; a `load` without a file asks for none. -/
def asked (evs : List Event) : Option String :=
  evs.foldl (fun file e =>
    match e with
    | .load obj => obj.file <|> file
    | _ => file) none

/-- All fields but the size are the same. What the loader tells others is not
compared. -/
structure Same (s s' : State) : Prop where
  swfLoader : s'.swfLoader = s.swfLoader
  loadedSwfArray : s'.loadedSwfArray = s.loadedSwfArray
  loadObj : s'.loadObj = s.loadObj
  loading : s'.loading = s.loading
  children : s'.children = s.children
  loaders : s'.loaders = s.loaders
  completed : s'.completed = s.completed
  listeners : s'.listeners = s.listeners

theorem Same.refl (s : State) : Same s s := ⟨rfl, rfl, rfl, rfl, rfl, rfl, rfl, rfl⟩

theorem same_tell (o : Out) (s : State) : Same s (s.tell o) :=
  ⟨rfl, rfl, rfl, rfl, rfl, rfl, rfl, rfl⟩

theorem same_standbyLast (content : String → Swf) (s : State) : Same s (s.standbyLast content) := by
  unfold State.standbyLast
  split
  · exact Same.refl s
  · split
    · split
      · exact same_tell _ s
      · exact Same.refl s
    · exact Same.refl s

theorem same_initSWF (ldr : ℕ) (firstLoad : Bool) (s : State) :
    Same s (s.initSWF content ldr firstLoad) := by
  unfold State.initSWF
  split
  · exact Same.refl s
  · simp only
    split
    · split
      · split <;> exact ⟨rfl, rfl, rfl, rfl, rfl, rfl, rfl, rfl⟩
      · split <;> exact ⟨rfl, rfl, rfl, rfl, rfl, rfl, rfl, rfl⟩
    · exact same_tell _ s

theorem same_setSize (w h : ℚ) (s : State) : Same s (s.setSize content w h) := by
  unfold State.setSize
  simp only
  split
  · exact ⟨rfl, rfl, rfl, rfl, rfl, rfl, rfl, rfl⟩
  · split
    · split <;> exact ⟨rfl, rfl, rfl, rfl, rfl, rfl, rfl, rfl⟩
    · exact ⟨rfl, rfl, rfl, rfl, rfl, rfl, rfl, rfl⟩

theorem asked_concat (evs : List Event) (e : Event) : asked (evs ++ [e]) =
    match e with
    | .load obj => obj.file <|> asked evs
    | _ => asked evs := by
  rw [asked, List.foldl_append]
  rfl

theorem getStoredClip_eq (file : String) (s : State) : s.getStoredClip file =
    (s.loadedSwfArray.reverse.find? fun entry => entry.1 = some file).map Prod.snd := by
  unfold State.getStoredClip
  induction s.loadedSwfArray using List.reverseRecOn with
  | nil => rfl
  | append_singleton l entry ih =>
      rw [List.foldl_append, ih, List.reverse_concat, List.find?_cons]
      simp only [List.foldl_cons, List.foldl_nil]
      split
      · next heq => simp [heq]
      · next heq => simp [heq]

theorem getStoredClip_mem {file : String} {ldr : ℕ} (h : s.getStoredClip file = some ldr) :
    (some file, ldr) ∈ s.loadedSwfArray := by
  rw [getStoredClip_eq, Option.map_eq_some_iff] at h
  obtain ⟨entry, hfound, rfl⟩ := h
  have hfile := List.find?_some hfound
  rw [decide_eq_true_eq] at hfile
  rw [← hfile]
  exact List.mem_reverse.mp (List.mem_of_find?_eq_some hfound)

theorem getStoredClip_none {file : String} (h : s.getStoredClip file = none) :
    ∀ e ∈ s.loadedSwfArray, e.1 ≠ some file := by
  rw [getStoredClip_eq, Option.map_eq_none_iff, List.find?_eq_none] at h
  intro e he hfile
  exact h e (List.mem_reverse.mpr he) (decide_eq_true hfile)

/-- What every run keeps. Stored swfs are complete, what is shown is one swf,
and either the one loader that is listened to loads the file asked for last, or
nothing is listened to and this file is shown. -/
structure Inv (evs : List Event) (s : State) : Prop where
  stored : ∀ e ∈ s.loadedSwfArray,
    e.2 ∈ s.completed ∧ ∀ f, e.1 = some f → s.loaders[e.2]? = some f
  completed : ∀ i ∈ s.completed, i < s.loaders.length
  shown : s.children = [] ∨ ∃ i ∈ s.completed, s.children = [i]
  current : ∀ f, s.loadObj.bind (·.file) = some f → asked evs = some f
  pending : s.loading = true → ∃ i f, s.swfLoader = some i ∧ s.listeners = [i] ∧
    s.loaders[i]? = some f ∧ i ∉ s.completed ∧ asked evs = some f
  idle : s.loading = false → s.listeners = [] ∧
    (asked evs = none ∧ s.children = [] ∨
      ∃ i f, s.children = [i] ∧ i ∈ s.completed ∧ s.loaders[i]? = some f ∧ asked evs = some f)

theorem Inv.same {evs evs' : List Event} (h : Inv evs s) (hsame : Same s s')
    (hasked : asked evs' = asked evs) : Inv evs' s' := by
  constructor
  · rw [hsame.loadedSwfArray, hsame.completed, hsame.loaders]
    exact h.stored
  · rw [hsame.completed, hsame.loaders]
    exact h.completed
  · rw [hsame.children, hsame.completed]
    exact h.shown
  · rw [hsame.loadObj, hasked]
    exact h.current
  · rw [hsame.loading, hsame.swfLoader, hsame.listeners, hsame.loaders, hsame.completed, hasked]
    exact h.pending
  · rw [hsame.loading, hsame.children, hsame.listeners, hsame.loaders, hsame.completed, hasked]
    exact h.idle

/-- The loader after it has cancelled whatever it was loading, with what it
shows and stores left as it was. -/
structure Ready (s t : State) : Prop where
  listeners : t.listeners = []
  loading : t.loading = false
  loadedSwfArray : t.loadedSwfArray = s.loadedSwfArray
  children : t.children = s.children
  loaders : t.loaders = s.loaders
  completed : t.completed = s.completed

/-- A load that is cancelled is not listened to any more, and there never was
more than one. -/
theorem Inv.ready {evs : List Event} (h : Inv evs s) (o : Option SectionLoadObject) :
    Ready s (if s.loading then { s with loadObj := o }.cancelLoad else { s with loadObj := o }) ∧
      (if s.loading then { s with loadObj := o }.cancelLoad
        else { s with loadObj := o }).loadObj = o := by
  split
  · next hloading =>
      obtain ⟨i, f, hswf, hlisteners, -⟩ := h.pending hloading
      unfold State.cancelLoad
      rw [hswf]
      refine ⟨⟨?_, rfl, rfl, rfl, rfl, rfl⟩, rfl⟩
      show s.listeners.erase i = []
      rw [hlisteners, List.erase_cons_head]
  · next hloading =>
      rw [Bool.not_eq_true] at hloading
      exact ⟨⟨(h.idle hloading).1, hloading, rfl, rfl, rfl, rfl⟩, rfl⟩

theorem Ready.same {t u : State} (h : Ready s t) (hsame : Same t u) : Ready s u :=
  ⟨hsame.listeners.trans h.listeners, hsame.loading.trans h.loading,
    hsame.loadedSwfArray.trans h.loadedSwfArray, hsame.children.trans h.children,
    hsame.loaders.trans h.loaders, hsame.completed.trans h.completed⟩

section load
variable {evs evs' : List Event} {t : State} {file : String}

/-- A swf from the cache is shown at once, and it is of the file that was asked
for. -/
theorem inv_stored (h : Inv evs s) (hready : Ready s t) (hasked : asked evs' = some file)
    (hcurrent : t.loadObj.bind (·.file) = some file)
    {clip : ℕ} (hclip : t.getStoredClip file = some clip) :
    Inv evs' { t.addToDisplay clip with swfLoader := some clip } := by
  have hmem := getStoredClip_mem hclip
  rw [hready.loadedSwfArray] at hmem
  obtain ⟨hcompleted, hfile⟩ := h.stored _ hmem
  refine ⟨?_, ?_, Or.inr ⟨clip, ?_, rfl⟩, ?_, ?_, ?_⟩
  · show ∀ e ∈ t.loadedSwfArray, e.2 ∈ t.completed ∧ ∀ f, e.1 = some f → t.loaders[e.2]? = some f
    rw [hready.loadedSwfArray, hready.completed, hready.loaders]
    exact h.stored
  · show ∀ i ∈ t.completed, i < t.loaders.length
    rw [hready.completed, hready.loaders]
    exact h.completed
  · show clip ∈ t.completed
    rw [hready.completed]
    exact hcompleted
  · intro f hf
    rw [hasked, ← hcurrent]
    exact hf
  · intro hloading
    exact absurd (hready.loading.symm.trans hloading) nofun
  · intro _
    refine ⟨hready.listeners, Or.inr ⟨clip, file, rfl, ?_, ?_, hasked⟩⟩
    · show clip ∈ t.completed
      rw [hready.completed]
      exact hcompleted
    · show t.loaders[clip]? = some file
      rw [hready.loaders]
      exact hfile file rfl

/-- A swf that is not in the cache is loaded, and it is the only one to be. -/
theorem inv_loadNewSWF (h : Inv evs s) (hready : Ready s t) (hasked : asked evs' = some file)
    (hcurrent : t.loadObj.bind (·.file) = some file) : Inv evs' (t.loadNewSWF file) := by
  refine ⟨?_, ?_, ?_, ?_, ?_, nofun⟩
  · show ∀ e ∈ t.loadedSwfArray, e.2 ∈ t.completed ∧
      ∀ f, e.1 = some f → (t.loaders ++ [file])[e.2]? = some f
    rw [hready.loadedSwfArray, hready.completed, hready.loaders]
    intro e he
    obtain ⟨hcompleted, hfile⟩ := h.stored e he
    refine ⟨hcompleted, ?_⟩
    rw [List.getElem?_append_left (h.completed _ hcompleted)]
    exact hfile
  · show ∀ i ∈ t.completed, i < (t.loaders ++ [file]).length
    rw [hready.completed, hready.loaders, List.length_append]
    exact fun i hi => Nat.lt_add_right _ (h.completed i hi)
  · show t.children = [] ∨ ∃ i ∈ t.completed, t.children = [i]
    rw [hready.children, hready.completed]
    exact h.shown
  · intro f hf
    rw [hasked, ← hcurrent]
    exact hf
  · intro _
    refine ⟨t.loaders.length, file, rfl, ?_, List.getElem?_concat_length, ?_, hasked⟩
    · show t.listeners ++ [t.loaders.length] = [t.loaders.length]
      rw [hready.listeners, List.nil_append]
    · show t.loaders.length ∉ t.completed
      rw [hready.completed, hready.loaders]
      exact fun hmem => absurd (h.completed _ hmem) (Nat.lt_irrefl _)

end load

/-- A `load` either fails at once for lack of a file, or shows a stored swf, or
starts to load one. -/
theorem inv_load {evs : List Event} (h : Inv evs s) (obj : SectionLoadObject) :
    Inv (evs ++ [.load obj]) (s.load content obj) := by
  have hasked : asked (evs ++ [.load obj]) = (obj.file <|> asked evs) := asked_concat evs _
  unfold State.load
  cases hfile : obj.file with
  | none =>
      rw [hfile] at hasked
      refine ⟨h.stored, h.completed, h.shown, ?_, ?_, ?_⟩
      · intro f hf
        exact absurd (hfile.symm.trans hf) nofun
      · rw [hasked]
        exact h.pending
      · rw [hasked]
        exact h.idle
  | some file =>
      rw [hfile] at hasked
      obtain ⟨hready, hobj⟩ := h.ready (some obj)
      have hsame := same_standbyLast content
        (if s.loading then State.cancelLoad { s with loadObj := some obj }
          else { s with loadObj := some obj })
      have hcurrent : (State.standbyLast content (if s.loading then
          State.cancelLoad { s with loadObj := some obj }
          else { s with loadObj := some obj })).loadObj.bind (·.file) = some file := by
        rw [hsame.loadObj, hobj, Option.bind_some, hfile]
      simp only
      split
      · next clip hclip =>
          exact (inv_stored h (hready.same hsame) hasked hcurrent hclip).same
            (same_initSWF clip false _) rfl
      · exact inv_loadNewSWF h (hready.same hsame) hasked hcurrent

/-- The swf that completes is the one that is waited for, so that it is of the
file asked for last. -/
theorem complete_spec {evs : List Event} (h : Inv evs s) {ldr : ℕ}
    (hstep : step content s (.complete ldr) = some s') :
    ∃ f, s.loading = true ∧ s.swfLoader = some ldr ∧ s.loaders[ldr]? = some f ∧
      ldr ∉ s.completed ∧ asked evs = some f ∧
      Same { s with
        listeners := []
        loading := false
        loadedSwfArray := s.loadedSwfArray ++ [(s.loadObj.bind (·.file), ldr)]
        children := [ldr]
        completed := s.completed ++ [ldr] } s' := by
  simp only [step] at hstep
  split at hstep
  · next hldr =>
      obtain rfl := Option.some.inj hstep
      have hloading : s.loading = true := by
        by_contra hidle
        rw [Bool.not_eq_true] at hidle
        rw [(h.idle hidle).1] at hldr
        cases hldr
      obtain ⟨i, f, hswf, hlisteners, hfile, hi, hf⟩ := h.pending hloading
      obtain rfl : ldr = i := by
        rw [hlisteners] at hldr
        exact List.mem_singleton.mp hldr
      refine ⟨f, hloading, hswf, hfile, hi, hf, ?_⟩
      unfold State.loaded
      simp only [hswf, hlisteners, List.erase_cons_head]
      exact same_initSWF ldr true _
  · cases hstep

theorem inv_complete {evs : List Event} (h : Inv evs s) {ldr : ℕ}
    (hstep : step content s (.complete ldr) = some s') : Inv (evs ++ [.complete ldr]) s' := by
  obtain ⟨f, -, -, hfile, -, hf, hsame⟩ := complete_spec h hstep
  have hlast : ldr ∈ s.completed ++ [ldr] := List.mem_append_right _ List.mem_cons_self
  refine Inv.same ?_ hsame (asked_concat evs _)
  refine ⟨?_, ?_, Or.inr ⟨ldr, hlast, rfl⟩, h.current, nofun, ?_⟩
  · intro e he
    rcases List.mem_append.mp he with he | he
    · obtain ⟨hcompleted, hstored⟩ := h.stored e he
      exact ⟨List.mem_append_left _ hcompleted, hstored⟩
    · obtain rfl := List.mem_singleton.mp he
      refine ⟨hlast, ?_⟩
      intro g hg
      obtain rfl := Option.some.inj (hf.symm.trans (h.current g hg))
      exact hfile
  · intro j hj
    rcases List.mem_append.mp hj with hj | hj
    · exact h.completed j hj
    · obtain rfl := List.mem_singleton.mp hj
      exact (List.getElem?_eq_some_iff.mp hfile).1
  · exact fun _ => ⟨rfl, Or.inr ⟨ldr, f, rfl, hlast, hfile, hf⟩⟩

/-- Each event keeps the invariant: `load` and `COMPLETE` change what is shown,
the others only tell something. -/
theorem inv_step {evs : List Event} {e : Event} (h : Inv evs s)
    (hstep : step content s e = some s') : Inv (evs ++ [e]) s' := by
  cases e with
  | load obj =>
      obtain rfl := Option.some.inj hstep
      exact inv_load h obj
  | setSize width height =>
      obtain rfl := Option.some.inj hstep
      exact h.same (same_setSize width height s) (asked_concat evs _)
  | progress ldr bytesLoaded bytesTotal =>
      simp only [step] at hstep
      split at hstep
      · obtain rfl := Option.some.inj hstep
        exact h.same (same_tell _ s) (asked_concat evs _)
      · cases hstep
  | complete ldr => exact inv_complete h hstep

theorem inv_new : Inv [] new :=
  ⟨nofun, nofun, Or.inl rfl, nofun, nofun, fun _ => ⟨rfl, Or.inl ⟨rfl, rfl⟩⟩⟩

/-- **The latest section is shown**: when nothing is being loaded, the one
child is a swf of the file asked for last, and otherwise the one load that
is waited for is a load of that file. -/
theorem shows_latest {evs : List Event} (hrun : Runs.run (step content) new evs = some s) :
    (s.loading = true → ∃ i f, s.swfLoader = some i ∧ s.listeners = [i] ∧
      s.loaders[i]? = some f ∧ asked evs = some f) ∧
    (s.loading = false → s.listeners = [] ∧ (asked evs = none ∧ s.children = [] ∨
      ∃ i f, s.children = [i] ∧ i ∈ s.completed ∧ s.loaders[i]? = some f ∧
        asked evs = some f)) := by
  have h : Inv evs s := Runs.run_history Inv inv_new
    (fun _ _ _ _ h hstep => inv_step h hstep) hrun
  refine ⟨?_, h.idle⟩
  intro hloading
  obtain ⟨i, f, hswf, hlisteners, hfile, -, hf⟩ := h.pending hloading
  exact ⟨i, f, hswf, hlisteners, hfile, hf⟩

/-! ## What is loaded again -/

/-- A swf that completes in this step is kept under the file that it was loaded
from. -/
def Filed (s : State) (e : Event) (s' : State) : Prop :=
  ∀ i, e = .complete i → (s.loaders[i]?, i) ∈ s'.loadedSwfArray

/-- No swf completes in this step after a load that had no file. -/
def Named (s : State) (e : Event) (_ : State) : Prop :=
  ∀ i, e = .complete i → (s.loadObj.bind (·.file)).isSome = true

/-- No file is loaded twice: each complete swf is stored under its own file, no
two are of the same file, and what is being loaded is not in the store yet. -/
structure Once (s : State) : Prop where
  kept : ∀ i ∈ s.completed, (s.loaders[i]?, i) ∈ s.loadedSwfArray
  once : (s.completed.map (s.loaders[·]?)).Nodup
  fresh : s.loading = true → ∀ i e, s.swfLoader = some i → e ∈ s.loadedSwfArray →
    e.1 ≠ s.loaders[i]?

/-- The store takes the file of the latest load, so that it takes the right one
exactly if that load had a file. -/
theorem filed_iff {evs : List Event} {e : Event} (h : Inv evs s)
    (hstep : step content s e = some s') : Filed s e s' ↔ Named s e s' := by
  refine forall_congr' fun ldr => forall_congr' ?_
  rintro rfl
  obtain ⟨f, -, -, hfile, hnew, hf, hsame⟩ := complete_spec h hstep
  rw [hsame.loadedSwfArray, hfile, List.mem_append, List.mem_singleton]
  constructor
  · rintro (hmem | heq)
    · exact absurd (h.stored _ hmem).1 hnew
    · rw [← (Prod.mk.inj heq).1, Option.isSome_some]
  · intro hsome
    obtain ⟨g, hg⟩ := Option.isSome_iff_exists.mp hsome
    rw [hg, ← Option.some.inj (hf.symm.trans (h.current g hg))]
    exact Or.inr rfl

theorem Once.same (honce : Once s) (hsame : Same s s') : Once s' := by
  constructor
  · rw [hsame.completed, hsame.loaders, hsame.loadedSwfArray]
    exact honce.kept
  · rw [hsame.completed, hsame.loaders]
    exact honce.once
  · rw [hsame.loading, hsame.swfLoader, hsame.loadedSwfArray, hsame.loaders]
    exact honce.fresh

theorem once_complete {evs : List Event} (h : Inv evs s) (honce : Once s) {ldr : ℕ}
    (hstep : step content s (.complete ldr) = some s') (hfiled : Filed s (.complete ldr) s') :
    Once s' := by
  obtain ⟨f, hloading, hswf, hfile, hnew, -, hsame⟩ := complete_spec h hstep
  have hlast := hfiled ldr rfl
  rw [hsame.loadedSwfArray] at hlast
  refine Once.same ?_ hsame
  refine ⟨?_, ?_, nofun⟩
  · intro i hi
    rcases List.mem_append.mp hi with hi | hi
    · exact List.mem_append_left _ (honce.kept i hi)
    · obtain rfl := List.mem_singleton.mp hi
      exact hlast
  · show ((s.completed ++ [ldr]).map (s.loaders[·]?)).Nodup
    rw [List.map_append, List.nodup_append]
    refine ⟨honce.once, List.nodup_singleton _, ?_⟩
    rintro a ha b hb rfl
    obtain ⟨i, hi, rfl⟩ := List.mem_map.mp ha
    exact honce.fresh hloading ldr _ hswf (honce.kept i hi) (List.mem_singleton.mp hb)

/-- A `load` looks into the store first, so that it only loads what is not
there. -/
theorem once_load {evs : List Event} (h : Inv evs s) (honce : Once s) (obj : SectionLoadObject) :
    Once (s.load content obj) := by
  unfold State.load
  cases hfile : obj.file with
  | none => exact ⟨honce.kept, honce.once, honce.fresh⟩
  | some file =>
      have hready := (h.ready (some obj)).1.same (same_standbyLast content _)
      simp only
      generalize (if s.loading then State.cancelLoad { s with loadObj := some obj }
        else { s with loadObj := some obj }).standbyLast content = t at hready
      split
      · next clip hclip =>
          refine Once.same ?_ (same_initSWF clip false _)
          refine ⟨?_, ?_, fun hloading => absurd (hready.loading.symm.trans hloading) nofun⟩
          · show ∀ i ∈ t.completed, (t.loaders[i]?, i) ∈ t.loadedSwfArray
            rw [hready.completed, hready.loaders, hready.loadedSwfArray]
            exact honce.kept
          · show (t.completed.map (t.loaders[·]?)).Nodup
            rw [hready.completed, hready.loaders]
            exact honce.once
      · next hclip =>
          have hnone := getStoredClip_none hclip
          rw [hready.loadedSwfArray] at hnone
          have hold : ∀ i ∈ s.completed, (s.loaders ++ [file])[i]? = s.loaders[i]? := fun i hi =>
            List.getElem?_append_left (h.completed i hi)
          refine ⟨?_, ?_, ?_⟩
          · show ∀ i ∈ t.completed, ((t.loaders ++ [file])[i]?, i) ∈ t.loadedSwfArray
            rw [hready.completed, hready.loaders, hready.loadedSwfArray]
            intro i hi
            rw [hold i hi]
            exact honce.kept i hi
          · show (t.completed.map ((t.loaders ++ [file])[·]?)).Nodup
            rw [hready.completed, hready.loaders, List.map_congr_left hold]
            exact honce.once
          · rintro - i e hi he
            obtain rfl := Option.some.inj hi
            rw [show (t.loadNewSWF file).loaders = t.loaders ++ [file] from rfl,
              List.getElem?_concat_length]
            refine hnone e ?_
            rw [← hready.loadedSwfArray]
            exact he

theorem once_step {evs : List Event} {e : Event} (h : Inv evs s) (honce : Once s)
    (hstep : step content s e = some s') (hfiled : Filed s e s') : Once s' := by
  cases e with
  | load obj =>
      obtain rfl := Option.some.inj hstep
      exact once_load h honce obj
  | setSize width height =>
      obtain rfl := Option.some.inj hstep
      exact honce.same (same_setSize width height s)
  | progress ldr bytesLoaded bytesTotal =>
      simp only [step] at hstep
      split at hstep
      · obtain rfl := Option.some.inj hstep
        exact honce.same (same_tell _ s)
      · cases hstep
  | complete ldr => exact once_complete h honce hstep hfiled

/-- **Each swf is loaded once**, as long as none completes after a load that
had no file: that is exactly when every swf is kept under the file it was
loaded from. -/
theorem loads_once {evs : List Event} (hrun : Runs.run (step content) new evs = some s) :
    (Runs.EachStep (step content) Filed new evs ↔ Runs.EachStep (step content) Named new evs) ∧
    (Runs.EachStep (step content) Filed new evs →
      (s.completed.map (s.loaders[·]?)).Nodup) := by
  constructor
  · refine Runs.eachStep_iff (fun s => ∃ evs, Inv evs s) ?_ ?_ ⟨[], inv_new⟩ hrun
    · rintro s e s' ⟨evs, h⟩ hstep
      exact filed_iff h hstep
    · rintro s e s' ⟨evs, h⟩ hstep -
      exact ⟨_, inv_step h hstep⟩
  · intro hfiled
    have hstart : Inv [] new ∧ Once new := ⟨inv_new, nofun, List.nodup_nil, nofun⟩
    exact (Runs.run_each (fun evs s => Inv evs s ∧ Once s) hstart
      (fun _ _ _ _ h hstep hQ => ⟨inv_step h.1 hstep, once_step h.1 h.2 hstep hQ⟩)
      hrun hfiled).2.once

/-- A section with all that a section can have. -/
def gallery : SectionLoadObject := ⟨some "gallery", some "gallery.swf", none, none⟩

/-- The gallery is asked for twice, and shown from the cache the second time.
-/
theorem shows_latest_gallery : ∃ s,
    Runs.run (step fun _ => ⟨true, true, true, true, true⟩) new
        [.load gallery, .complete 0, .load gallery] = some s ∧
      (s.loading = true → ∃ i f, s.swfLoader = some i ∧ s.listeners = [i] ∧
        s.loaders[i]? = some f ∧ asked [.load gallery, .complete 0, .load gallery] = some f) ∧
      (s.loading = false → s.listeners = [] ∧
        (asked [.load gallery, .complete 0, .load gallery] = none ∧ s.children = [] ∨
          ∃ i f, s.children = [i] ∧ i ∈ s.completed ∧ s.loaders[i]? = some f ∧
            asked [.load gallery, .complete 0, .load gallery] = some f)) :=
  ⟨_, rfl, shows_latest rfl⟩

/-- The same run: its one swf is kept under its own file. -/
theorem loads_once_gallery : ∃ s,
    Runs.run (step fun _ => ⟨true, true, true, true, true⟩) new
        [.load gallery, .complete 0, .load gallery] = some s ∧
      (Runs.EachStep (step fun _ => ⟨true, true, true, true, true⟩) Filed new
          [.load gallery, .complete 0, .load gallery] ↔
        Runs.EachStep (step fun _ => ⟨true, true, true, true, true⟩) Named new
          [.load gallery, .complete 0, .load gallery]) ∧
      (Runs.EachStep (step fun _ => ⟨true, true, true, true, true⟩) Filed new
          [.load gallery, .complete 0, .load gallery] →
        (s.completed.map (s.loaders[·]?)).Nodup) :=
  ⟨_, rfl, loads_once rfl⟩

end SectionLoader

end Resources
