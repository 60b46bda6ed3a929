import XdpDetector.Loader.Libbpf
import Mathlib.Data.Int.Notation
import Mathlib.Data.List.Nodup
import Mathlib.Tactic.SplitIfs

/-!
# Pinning the maps of a loaded object

`pin_maps_in_bpf_object` clears what an earlier run has left under the pin directory and pins the
maps of the new object. It decides by one name whether there is anything to clear, clears up to the
first name that is missing, and carries on when a map cannot be pinned.

* `pinEach`, `pinMapsInBpfObject`: the loop over the maps and the function;
* `LoadedObject`, `StaleOnly`: an object with its maps not yet pinned, and a file system with pins
  of earlier loads only;
* `pinEach_frame`, `pinEach_bound`: the loop keeps what is bound and binds the rest;
* `Recovers`: success, with every name bound to the object's own map;
* **`recovers_iff_none_or_all_stale`**: the leftovers that the function recovers from.
-/

namespace XdpDetector

def exitFailBpf : ℤ := 40

def pinBasedir : Path := ['/', 's', 'y', 's', '/', 'f', 's', '/', 'b', 'p', 'f']

/-- `xdp_flow_tracking`. -/
def mapName : Path :=
  ['x', 'd', 'p', '_', 'f', 'l', 'o', 'w', '_', 't', 'r', 'a', 'c', 'k', 'i', 'n', 'g']

/-- A path as `snprintf` leaves it in a buffer of `PATH_MAX` bytes. -/
def snprintfPath (path : Path) : Path := path.take (pathMax - 1)

/-- The loop that pins all maps, with `map_count`; a map that cannot be pinned is passed over. -/
def pinEach (pinDir : Path) : List BpfMap → Bpffs → ℕ × List BpfMap × Bpffs
  | [], fs => (0, [], fs)
  | map :: maps, fs =>
    let (err, map, fs) := bpfMapPin fs map (some (snprintfPath (joinPath pinDir map.name)))
    let (mapCount, maps, fs) := pinEach pinDir maps fs
    (if err.isSome then mapCount else mapCount + 1, map :: maps, fs)

/-- `pin_maps_in_bpf_object`, on the maps of the object. -/
def pinMapsInBpfObject (maps : List BpfMap) (subdir : Path) (fs : Bpffs) :
    ℤ × List BpfMap × Bpffs :=
  let pinDir := snprintfPath (joinPath pinBasedir subdir)
  let mapFilename := snprintfPath (joinPath (joinPath pinBasedir subdir) mapName)
  let pin (maps : List BpfMap) (fs : Bpffs) : ℤ × List BpfMap × Bpffs :=
    let (_, maps, fs) := pinEach pinDir maps fs
    (0, maps, fs)
  if (fs mapFilename).isSome then
    match bpfObjectUnpinMaps (some pinDir) maps fs with
    | (some _, maps, fs) => (exitFailBpf, maps, fs)
    | (none, maps, fs) => pin maps fs
  else pin maps fs

/-! ## Objects and leftovers -/

/-- **An object just loaded for `subdir`**: distinctly named maps, none of them pinned, among them
`xdp_flow_tracking`; its names have no periods and its paths fit. -/
structure LoadedObject (subdir : Path) where
  maps : List BpfMap
  nodup : (maps.map BpfMap.name).Nodup
  fresh : ∀ map ∈ maps, map.Fresh
  no_period : ∀ map ∈ maps, '.' ∉ map.name
  path_lt : ∀ map ∈ maps, (joinPath (joinPath pinBasedir subdir) map.name).length < pathMax
  tracking : mapName ∈ maps.map BpfMap.name

def pinPathOf (subdir : Path) (map : BpfMap) : Path :=
  joinPath (joinPath pinBasedir subdir) map.name

variable {subdir : Path}

/-- The names of the object are bound to maps of earlier loads, if at all. -/
def StaleOnly (obj : LoadedObject subdir) (fs : Bpffs) : Prop :=
  ∀ map ∈ obj.maps, ∀ i, fs (pinPathOf subdir map) = some i → ∀ own ∈ obj.maps, i ≠ own.id

theorem snprintfPath_of_lt {path : Path} (h : path.length < pathMax) : snprintfPath path = path :=
  List.take_of_length_le (by unfold pathMax at *; omega)

theorem length_joinPath (dir name : Path) :
    (joinPath dir name).length = dir.length + name.length + 1 := by
  simp [joinPath]
  omega

/-! ## The loop -/

section Loop

variable {pinDir : Path} {maps : List BpfMap} {fs : Bpffs}

theorem pinEach_frame (hfresh : ∀ map ∈ maps, map.Fresh)
    (hlen : ∀ map ∈ maps, (joinPath pinDir map.name).length < pathMax) {path : Path}
    (hp : ∀ map ∈ maps, path ≠ joinPath pinDir map.name) :
    (pinEach pinDir maps fs).2.2 path = fs path := by
  induction maps generalizing fs with
  | nil => rfl
  | cons map maps ih =>
    simp only [List.forall_mem_cons] at hfresh hlen hp
    simp only [pinEach]
    rw [ih hfresh.2 hlen.2 hp.2, snprintfPath_of_lt hlen.1, bpfMapPin_frame hfresh.1 hp.1]

/-- **The loop** leaves a bound path as it is and binds a free one to the map of its name. -/
theorem pinEach_bound (hfresh : ∀ map ∈ maps, map.Fresh)
    (hlen : ∀ map ∈ maps, (joinPath pinDir map.name).length < pathMax)
    (hnd : (maps.map BpfMap.name).Nodup) {map : BpfMap} (hm : map ∈ maps) :
    (pinEach pinDir maps fs).2.2 (joinPath pinDir map.name) =
      if (fs (joinPath pinDir map.name)).isSome then fs (joinPath pinDir map.name)
      else some map.id := by
  induction maps generalizing fs with
  | nil => cases hm
  | cons head maps ih =>
    simp only [List.forall_mem_cons] at hfresh hlen
    rw [List.map_cons, List.nodup_cons] at hnd
    simp only [pinEach]
    rcases List.mem_cons.mp hm with rfl | hm
    · have hne : ∀ m ∈ maps, joinPath pinDir map.name ≠ joinPath pinDir m.name := fun m hmem hc =>
        hnd.1 (joinPath_injective hc ▸ List.mem_map_of_mem hmem)
      rw [pinEach_frame hfresh.2 hlen.2 hne, snprintfPath_of_lt hlen.1, bpfMapPin_self hfresh.1]
    · have hne : joinPath pinDir map.name ≠ joinPath pinDir head.name := fun hc =>
        hnd.1 (joinPath_injective hc ▸ List.mem_map_of_mem hm)
      rw [ih hfresh.2 hlen.2 hnd.2 hm, snprintfPath_of_lt hlen.1, bpfMapPin_frame hfresh.1 hne]

end Loop

/-! ## The function -/

/-- **Recovery**: success, with every name of the object bound to its own map. -/
def Recovers (obj : LoadedObject subdir) (r : ℤ × List BpfMap × Bpffs) : Prop :=
  r.1 = 0 ∧ ∀ map ∈ obj.maps, r.2.2 (pinPathOf subdir map) = some map.id

/-- **Truth**: a success leaves no name of the object bound to a map of an earlier load. -/
def Truthful (obj : LoadedObject subdir) (r : ℤ × List BpfMap × Bpffs) : Prop :=
  r.1 = 0 → ∀ map ∈ obj.maps, ∀ i, r.2.2 (pinPathOf subdir map) = some i →
    ∃ own ∈ obj.maps, i = own.id

theorem Recovers.truthful {obj : LoadedObject subdir} {r : ℤ × List BpfMap × Bpffs}
    (h : Recovers obj r) : Truthful obj r := by
  intro _ map hm i hi
  rw [h.2 map hm] at hi
  exact ⟨map, hm, (Option.some.inj hi).symm⟩

namespace LoadedObject

variable (obj : LoadedObject subdir)

theorem dir_lt (obj : LoadedObject subdir) : (joinPath pinBasedir subdir).length < pathMax := by
  obtain ⟨map, hm, -⟩ := List.mem_map.mp obj.tracking
  have h := obj.path_lt map hm
  rw [length_joinPath] at h
  omega

theorem exists_tracking : ∃ map ∈ obj.maps,
    pinPathOf subdir map = joinPath (joinPath pinBasedir subdir) mapName := by
  obtain ⟨map, hm, hname⟩ := List.mem_map.mp obj.tracking
  exact ⟨map, hm, by rw [pinPathOf, hname]⟩

theorem nodup_unpinPath : (obj.maps.map (unpinPath (joinPath pinBasedir subdir))).Nodup := by
  have hmap : obj.maps.map (unpinPath (joinPath pinBasedir subdir)) =
      (obj.maps.map BpfMap.name).map
        (joinPath (sanitizePinPath (joinPath pinBasedir subdir))) := by
    rw [List.map_map]
    refine List.map_congr_left fun map hm => ?_
    rw [unpinPath, sanitizePinPath_joinPath, sanitizePinPath_of_notMem (obj.no_period map hm)]
    rfl
  rw [hmap]
  exact List.Nodup.map (fun _ _ h => joinPath_injective h) obj.nodup

/-- Without a period in the directory the paths that are unlinked are the paths of the pins. -/
theorem unpinPath_eq (h : '.' ∉ subdir) {map : BpfMap} (hm : map ∈ obj.maps) :
    unpinPath (joinPath pinBasedir subdir) map = pinPathOf subdir map := by
  have hdir : '.' ∉ joinPath pinBasedir subdir := by
    simp only [joinPath, List.mem_append, List.mem_cons, not_or]
    exact ⟨by decide, by decide, h⟩
  rw [unpinPath, sanitizePinPath_joinPath, sanitizePinPath_of_notMem (obj.no_period map hm),
    sanitizePinPath_of_notMem hdir]
  rfl

theorem unpinPath_ne (h : '.' ∈ subdir) (map map' : BpfMap) :
    pinPathOf subdir map ≠ unpinPath (joinPath pinBasedir subdir) map' := by
  intro hc
  have hp : '.' ∈ pinPathOf subdir map := by simp [pinPathOf, joinPath, h]
  rw [hc] at hp
  exact period_notMem_sanitizePinPath _ hp

/-- Pinning recovers if nothing stale is in the way. -/
theorem recovers_pinEach_iff {obj : LoadedObject subdir} {fs : Bpffs} (hs : StaleOnly obj fs) :
    Recovers obj (0, (pinEach (joinPath pinBasedir subdir) obj.maps fs).2) ↔
      ∀ map ∈ obj.maps, fs (pinPathOf subdir map) = none := by
  have hb : ∀ map ∈ obj.maps, (pinEach (joinPath pinBasedir subdir) obj.maps fs).2.2
      (pinPathOf subdir map) = if (fs (pinPathOf subdir map)).isSome then
        fs (pinPathOf subdir map) else some map.id :=
    fun map hm => pinEach_bound obj.fresh obj.path_lt obj.nodup hm
  constructor
  · rintro ⟨-, h⟩ map hm
    have hown := h map hm
    rw [hb map hm] at hown
    split_ifs at hown with hsome
    · exact absurd rfl (hs map hm map.id hown map hm)
    · exact Option.not_isSome_iff_eq_none.mp hsome
  · intro h
    refine ⟨rfl, fun map hm => ?_⟩
    rw [hb map hm, h map hm]
    rfl

theorem pinMaps_eq (fs : Bpffs) :
    pinMapsInBpfObject obj.maps subdir fs =
      if (fs (joinPath (joinPath pinBasedir subdir) mapName)).isSome then
        match bpfObjectUnpinMaps (some (joinPath pinBasedir subdir)) obj.maps fs with
        | (some _, maps, fs) => (exitFailBpf, maps, fs)
        | (none, maps, fs) => (0, (pinEach (joinPath pinBasedir subdir) maps fs).2)
      else (0, (pinEach (joinPath pinBasedir subdir) obj.maps fs).2) := by
  obtain ⟨map, hm, hpath⟩ := obj.exists_tracking
  have hfile := obj.path_lt map hm
  rw [← pinPathOf, hpath] at hfile
  rw [pinMapsInBpfObject, snprintfPath_of_lt obj.dir_lt, snprintfPath_of_lt hfile]

theorem pinMaps_of_free {fs : Bpffs}
    (h : fs (joinPath (joinPath pinBasedir subdir) mapName) = none) :
    pinMapsInBpfObject obj.maps subdir fs =
      (0, (pinEach (joinPath pinBasedir subdir) obj.maps fs).2) := by
  rw [pinMaps_eq, h]
  rfl

/-- All that is to be unlinked is there: the pins are then made on a cleared file system. -/
theorem pinMaps_of_bound {fs : Bpffs}
    (h : (fs (joinPath (joinPath pinBasedir subdir) mapName)).isSome)
    (hb : ∀ map ∈ obj.maps, (fs (unpinPath (joinPath pinBasedir subdir) map)).isSome) :
    pinMapsInBpfObject obj.maps subdir fs =
      (0, (pinEach (joinPath pinBasedir subdir) obj.maps fun p =>
        if p ∈ obj.maps.map (unpinPath (joinPath pinBasedir subdir)) then none else fs p).2) := by
  rw [pinMaps_eq, if_pos h, unpinMaps_of_bound obj.fresh obj.path_lt obj.nodup_unpinPath hb]

theorem pinMaps_of_missing {fs : Bpffs}
    (h : (fs (joinPath (joinPath pinBasedir subdir) mapName)).isSome)
    (hm : ∃ map ∈ obj.maps, fs (unpinPath (joinPath pinBasedir subdir) map) = none) :
    (pinMapsInBpfObject obj.maps subdir fs).1 = exitFailBpf := by
  obtain ⟨err, herr⟩ := Option.isSome_iff_exists.mp
    (unpinMaps_of_missing obj.fresh obj.path_lt hm)
  rw [pinMaps_eq, if_pos h]
  split
  · rfl
  · next heq => rw [heq] at herr; cases herr

theorem recovers_of_bound_iff {fs : Bpffs} (hs : StaleOnly obj fs)
    (h : (fs (joinPath (joinPath pinBasedir subdir) mapName)).isSome)
    (hb : ∀ map ∈ obj.maps, (fs (unpinPath (joinPath pinBasedir subdir) map)).isSome) :
    Recovers obj (pinMapsInBpfObject obj.maps subdir fs) ↔ '.' ∉ subdir := by
  have hs' : StaleOnly obj fun p =>
      if p ∈ obj.maps.map (unpinPath (joinPath pinBasedir subdir)) then none else fs p := by
    intro map hm i hi
    dsimp only at hi
    split_ifs at hi
    exact hs map hm i hi
  rw [obj.pinMaps_of_bound h hb, recovers_pinEach_iff hs']
  constructor
  · intro hnone hp
    obtain ⟨map, hm, hpath⟩ := obj.exists_tracking
    have hn := hnone map hm
    rw [if_neg] at hn
    · rw [hpath] at hn
      rw [hn] at h
      cases h
    · intro hc
      obtain ⟨map', -, he⟩ := List.mem_map.mp hc
      exact unpinPath_ne hp map map' he.symm
  · intro hp map hm
    rw [if_pos]
    rw [← obj.unpinPath_eq hp hm]
    exact List.mem_map_of_mem hm

/-- With a stale pin of `xdp_flow_tracking` the old pins are unlinked first: that succeeds if all of
them are there, under the paths that the maps are pinned at. -/
theorem recovers_of_tracking_iff {fs : Bpffs} (hs : StaleOnly obj fs)
    (h : (fs (joinPath (joinPath pinBasedir subdir) mapName)).isSome) :
    Recovers obj (pinMapsInBpfObject obj.maps subdir fs) ↔
      (∀ map ∈ obj.maps, (fs (pinPathOf subdir map)).isSome) ∧ '.' ∉ subdir := by
  by_cases hb : ∀ map ∈ obj.maps, (fs (unpinPath (joinPath pinBasedir subdir) map)).isSome
  · rw [obj.recovers_of_bound_iff hs h hb]
    constructor
    · intro hp
      refine ⟨fun map hm => ?_, hp⟩
      rw [← obj.unpinPath_eq hp hm]
      exact hb map hm
    · exact And.right
  · constructor
    · rintro ⟨hret, -⟩
      have hmiss : ∃ map ∈ obj.maps, fs (unpinPath (joinPath pinBasedir subdir) map) = none := by
        simpa using hb
      rw [obj.pinMaps_of_missing h hmiss] at hret
      exact absurd hret (by decide)
    · rintro ⟨hall, hp⟩
      refine absurd (fun map hm => ?_) hb
      rw [obj.unpinPath_eq hp hm]
      exact hall map hm

end LoadedObject

/-- **The leftovers that the function recovers from**: none at all, or the whole set, in a directory
without a period. -/
theorem recovers_iff_none_or_all_stale (obj : LoadedObject subdir) (fs : Bpffs)
    (hs : StaleOnly obj fs) :
    (Recovers obj (pinMapsInBpfObject obj.maps subdir fs) ∧
        Truthful obj (pinMapsInBpfObject obj.maps subdir fs)) ↔
      (∀ map ∈ obj.maps, fs (pinPathOf subdir map) = none) ∨
        ((∀ map ∈ obj.maps, (fs (pinPathOf subdir map)).isSome) ∧ '.' ∉ subdir) := by
  rw [and_iff_left_of_imp Recovers.truthful]
  obtain ⟨tracking, hmem, hpath⟩ := obj.exists_tracking
  cases hbound : fs (joinPath (joinPath pinBasedir subdir) mapName) with
  | none =>
    rw [obj.pinMaps_of_free hbound, LoadedObject.recovers_pinEach_iff hs]
    constructor
    · exact Or.inl
    · rintro (h | ⟨h, -⟩)
      · exact h
      · have := h tracking hmem
        rw [hpath, hbound] at this
        cases this
  | some i =>
    have hnot : ¬ ∀ map ∈ obj.maps, fs (pinPathOf subdir map) = none := by
      intro h
      have := h tracking hmem
      rw [hpath, hbound] at this
      cases this
    rw [or_iff_right hnot]
    exact obj.recovers_of_tracking_iff hs (by rw [hbound]; rfl)

/-- `dt_map`. -/
def dtMapName : Path := ['d', 't', '_', 'm', 'a', 'p']

def accountingMapName : Path :=
  ['a', 'c', 'c', 'o', 'u', 'n', 't', 'i', 'n', 'g', '_', 'm', 'a', 'p']

/-- The object of the detector, loaded for `eth0`. -/
def detectorObject : LoadedObject ['e', 't', 'h', '0'] where
  maps := [⟨dtMapName, 11, none, false⟩, ⟨mapName, 12, none, false⟩,
    ⟨accountingMapName, 13, none, false⟩]
  nodup := by decide
  fresh := by simp [BpfMap.Fresh]
  no_period := by decide
  path_lt := by decide
  tracking := by decide

/-- Pins of an earlier load, at the given paths. -/
def stalePins (paths : List Path) : Bpffs := fun p => if p ∈ paths then some 1 else none

theorem staleOnly_stalePins (paths : List Path) : StaleOnly detectorObject (stalePins paths) := by
  intro map _ i hi
  rw [stalePins] at hi
  split_ifs at hi
  obtain rfl := Option.some.inj hi
  decide

theorem recovers_all_stale :
    Recovers detectorObject (pinMapsInBpfObject detectorObject.maps ['e', 't', 'h', '0']
      (stalePins (detectorObject.maps.map (pinPathOf ['e', 't', 'h', '0'])))) := by
  refine ((recovers_iff_none_or_all_stale detectorObject _ (staleOnly_stalePins _)).mpr
    (Or.inr ⟨?_, by decide⟩)).1
  intro map hm
  rw [stalePins, if_pos (List.mem_map_of_mem hm)]
  rfl

/-- A stale pin of `dt_map` alone: the function succeeds, and the pin stays. -/
theorem dt_map_stays_stale :
    StaleOnly detectorObject (stalePins [joinPath (joinPath pinBasedir ['e', 't', 'h', '0'])
        dtMapName]) ∧
      (pinMapsInBpfObject detectorObject.maps ['e', 't', 'h', '0']
        (stalePins [joinPath (joinPath pinBasedir ['e', 't', 'h', '0']) dtMapName])).1 = 0 ∧
      ¬ Truthful detectorObject (pinMapsInBpfObject detectorObject.maps ['e', 't', 'h', '0']
        (stalePins [joinPath (joinPath pinBasedir ['e', 't', 'h', '0']) dtMapName])) := by
  refine ⟨staleOnly_stalePins _, by decide, fun h => ?_⟩
  obtain ⟨own, hown, hid⟩ := h (by decide) ⟨dtMapName, 11, none, false⟩ (by decide) 1 (by decide)
  revert own
  decide

end XdpDetector
