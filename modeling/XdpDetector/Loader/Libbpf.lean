import Mathlib.Logic.Function.Basic
import Mathlib.Data.List.Basic
import Mathlib.Tactic.SplitIfs

/-!
# Pinning maps with libbpf

The functions of the vendored libbpf that the loader pins its maps with. The file system binds paths
to the identities of maps; the parent directory of a pin can always be made, so that a pin fails
exactly on a path that exists.

* `Bpffs`, `BpfMap`, `Errno`: the file system, a map of an object, the error codes;
* `bpfMapPin`, `bpfMapUnpin`, `bpfObjectUnpinMaps`: the functions, with what they do to the map and
  the file system;
* `bpfMapPin_fresh`, `bpfMapUnpin_fresh`: both on a map that was never pinned;
* **`unpinMaps_of_bound`**, `unpinMaps_of_missing`: the paths of an object are unlinked, up to one
  that is missing.
-/

namespace XdpDetector

abbrev Path : Type := List Char

/-- The maps bound in the file system, by path. -/
abbrev Bpffs : Type := Path → Option ℕ

inductive Errno
  | einval
  | eexist
  | enoent
  | enametoolong
deriving DecidableEq

/-- `struct bpf_map`: its name, its identity in the kernel, and where it is pinned. -/
structure BpfMap where
  name : Path
  id : ℕ
  pinPath : Option Path
  pinned : Bool
deriving DecidableEq

def pathMax : ℕ := 4096

/-- `"%s/%s"`. -/
def joinPath (dir name : Path) : Path := dir ++ '/' :: name

/-- `pathname_concat` into a buffer of `PATH_MAX` bytes. -/
def pathnameConcat (path name : Path) : Except Errno Path :=
  if (joinPath path name).length ≥ pathMax then .error .enametoolong else .ok (joinPath path name)

/-- `sanitize_pin_path`: bpffs disallows periods in path names. -/
def sanitizePinPath (s : Path) : Path := s.map fun c => if c = '.' then '_' else c

theorem joinPath_injective {dir a b : Path} (h : joinPath dir a = joinPath dir b) : a = b :=
  List.tail_eq_of_cons_eq (List.append_cancel_left h)

theorem sanitizePinPath_joinPath (dir name : Path) :
    sanitizePinPath (joinPath dir name) =
      joinPath (sanitizePinPath dir) (sanitizePinPath name) := by
  simp [sanitizePinPath, joinPath]

theorem sanitizePinPath_of_notMem {s : Path} (h : '.' ∉ s) : sanitizePinPath s = s := by
  refine (List.map_congr_left fun c hc => ?_).trans (List.map_id s)
  have hne : c ≠ '.' := fun he => h (he ▸ hc)
  exact if_neg hne

theorem period_notMem_sanitizePinPath (s : Path) : '.' ∉ sanitizePinPath s := by
  intro h
  obtain ⟨c, -, hc⟩ := List.mem_map.mp h
  split_ifs at hc with hp
  · exact absurd hc (by decide)
  · exact hp hc

/-! ## The functions -/

/-- `bpf_obj_pin` at the pin path of the map. -/
def bpfObjPin (fs : Bpffs) (map : BpfMap) (path : Path) : Option Errno × BpfMap × Bpffs :=
  if (fs path).isSome then (some .eexist, map, fs)
  else (none, { map with pinned := true }, Function.update fs path (some map.id))

/-- `bpf_map__pin`; the pin path is set before the path is looked at. -/
def bpfMapPin (fs : Bpffs) (map : BpfMap) (path : Option Path) : Option Errno × BpfMap × Bpffs :=
  match map.pinPath, path with
  | some pinPath, path =>
    if path.isSome ∧ path ≠ some pinPath then (some .einval, map, fs)
    else if map.pinned then (none, map, fs)
    else bpfObjPin fs map pinPath
  | none, none => (some .einval, map, fs)
  | none, some path =>
    if map.pinned then (some .eexist, map, fs)
    else bpfObjPin fs { map with pinPath := some path } path

def unlinkPin (fs : Bpffs) (map : BpfMap) (path : Path) : Option Errno × BpfMap × Bpffs :=
  if (fs path).isSome then (none, { map with pinned := false }, Function.update fs path none)
  else (some .enoent, map, fs)

/-- `bpf_map__unpin`. -/
def bpfMapUnpin (fs : Bpffs) (map : BpfMap) (path : Option Path) : Option Errno × BpfMap × Bpffs :=
  match map.pinPath, path with
  | some pinPath, path =>
    if path.isSome ∧ path ≠ some pinPath then (some .einval, map, fs)
    else unlinkPin fs map pinPath
  | none, none => (some .einval, map, fs)
  | none, some path => unlinkPin fs map path

/-- `bpf_object__unpin_maps` on the maps of the object, in order, up to the first error. -/
def bpfObjectUnpinMaps (path : Option Path) :
    List BpfMap → Bpffs → Option Errno × List BpfMap × Bpffs
  | [], fs => (none, [], fs)
  | map :: maps, fs =>
    let unpinFrom (pinPath : Option Path) : Option Errno × List BpfMap × Bpffs :=
      match bpfMapUnpin fs map pinPath with
      | (some err, map, fs) => (some err, map :: maps, fs)
      | (none, map, fs) =>
        let (err, maps, fs) := bpfObjectUnpinMaps path maps fs
        (err, map :: maps, fs)
    match path, map.pinPath with
    | some dir, _ =>
      match pathnameConcat dir map.name with
      | .error err => (some err, map :: maps, fs)
      | .ok buf => unpinFrom (some (sanitizePinPath buf))
    | none, some _ => unpinFrom none
    | none, none =>
      let (err, maps, fs) := bpfObjectUnpinMaps path maps fs
      (err, map :: maps, fs)

/-! ## Maps that were never pinned -/

/-- **A map that was never pinned.** -/
def BpfMap.Fresh (map : BpfMap) : Prop := map.pinPath = none ∧ map.pinned = false

section Fresh

variable {fs : Bpffs} {map : BpfMap} {path : Path}

theorem bpfMapPin_fresh (h : map.Fresh) :
    (bpfMapPin fs map (some path)).2.2 =
      if (fs path).isSome then fs else Function.update fs path (some map.id) := by
  obtain ⟨hp, hf⟩ := h
  simp only [bpfMapPin, hp, hf, bpfObjPin, Bool.false_eq_true, if_false]
  split_ifs <;> rfl

theorem bpfMapPin_self (h : map.Fresh) :
    (bpfMapPin fs map (some path)).2.2 path =
      if (fs path).isSome then fs path else some map.id := by
  rw [bpfMapPin_fresh h]
  split_ifs
  · rfl
  · rw [Function.update_self]

theorem bpfMapPin_frame (h : map.Fresh) {path' : Path} (hne : path' ≠ path) :
    (bpfMapPin fs map (some path)).2.2 path' = fs path' := by
  rw [bpfMapPin_fresh h]
  split_ifs
  · rfl
  · rw [Function.update_of_ne hne]

theorem bpfMapUnpin_fresh (h : map.Fresh) :
    bpfMapUnpin fs map (some path) =
      if (fs path).isSome then (none, map, Function.update fs path none)
      else (some .enoent, map, fs) := by
  obtain ⟨name, id, pinPath, pinned⟩ := map
  obtain ⟨rfl, rfl⟩ : pinPath = none ∧ pinned = false := h
  rfl

/-- The path that is unlinked for a map. -/
def unpinPath (dir : Path) (map : BpfMap) : Path := sanitizePinPath (joinPath dir map.name)

variable {dir : Path} {maps : List BpfMap}

theorem pathnameConcat_of_lt (hlen : (joinPath dir map.name).length < pathMax) :
    pathnameConcat dir map.name = .ok (joinPath dir map.name) := if_neg (Nat.not_le_of_lt hlen)

theorem unpinMaps_cons_of_bound (h : map.Fresh) (hlen : (joinPath dir map.name).length < pathMax)
    (hb : (fs (unpinPath dir map)).isSome) {err : Option Errno} {maps' : List BpfMap} {fs' : Bpffs}
    (hrest : bpfObjectUnpinMaps (some dir) maps (Function.update fs (unpinPath dir map) none) =
      (err, maps', fs')) :
    bpfObjectUnpinMaps (some dir) (map :: maps) fs = (err, map :: maps', fs') := by
  unfold unpinPath at hb hrest
  simp only [bpfObjectUnpinMaps, pathnameConcat_of_lt hlen, bpfMapUnpin_fresh h, hb, if_true, hrest]

theorem unpinMaps_cons_of_missing (h : map.Fresh) (hlen : (joinPath dir map.name).length < pathMax)
    (hb : ¬ (fs (unpinPath dir map)).isSome) :
    bpfObjectUnpinMaps (some dir) (map :: maps) fs = (some .enoent, map :: maps, fs) := by
  unfold unpinPath at hb
  simp only [bpfObjectUnpinMaps, pathnameConcat_of_lt hlen, bpfMapUnpin_fresh h, if_neg hb]

/-- **All paths bound**: each is unlinked. -/
theorem unpinMaps_of_bound (hfresh : ∀ map ∈ maps, map.Fresh)
    (hlen : ∀ map ∈ maps, (joinPath dir map.name).length < pathMax)
    (hnd : (maps.map (unpinPath dir)).Nodup)
    (hb : ∀ map ∈ maps, (fs (unpinPath dir map)).isSome) :
    bpfObjectUnpinMaps (some dir) maps fs =
      (none, maps, fun p => if p ∈ maps.map (unpinPath dir) then none else fs p) := by
  induction maps generalizing fs with
  | nil => simp [bpfObjectUnpinMaps]
  | cons map maps ih =>
    simp only [List.forall_mem_cons] at hfresh hlen hb
    rw [List.map_cons, List.nodup_cons] at hnd
    have hrest : ∀ m ∈ maps,
        (Function.update fs (unpinPath dir map) none (unpinPath dir m)).isSome := by
      intro m hm
      have hne : unpinPath dir m ≠ unpinPath dir map := fun hc =>
        hnd.1 (hc ▸ List.mem_map_of_mem hm)
      rw [Function.update_of_ne hne]
      exact hb.2 m hm
    rw [unpinMaps_cons_of_bound hfresh.1 hlen.1 hb.1 (ih hfresh.2 hlen.2 hnd.2 hrest)]
    congr 2
    funext p
    by_cases hp : p = unpinPath dir map
    · simp [hp]
    · simp [hp]

/-- **A path missing**: the function stops there with an error. -/
theorem unpinMaps_of_missing (hfresh : ∀ map ∈ maps, map.Fresh)
    (hlen : ∀ map ∈ maps, (joinPath dir map.name).length < pathMax)
    (hm : ∃ map ∈ maps, fs (unpinPath dir map) = none) :
    (bpfObjectUnpinMaps (some dir) maps fs).1.isSome := by
  induction maps generalizing fs with
  | nil =>
    obtain ⟨m, hm, -⟩ := hm
    cases hm
  | cons map maps ih =>
    simp only [List.forall_mem_cons] at hfresh hlen
    by_cases hb : (fs (unpinPath dir map)).isSome
    · rw [unpinMaps_cons_of_bound hfresh.1 hlen.1 hb rfl]
      refine ih hfresh.2 hlen.2 ?_
      obtain ⟨m, hmem, hnone⟩ := hm
      rcases List.mem_cons.mp hmem with rfl | hmem
      · rw [hnone] at hb
        cases hb
      · refine ⟨m, hmem, ?_⟩
        by_cases hp : unpinPath dir m = unpinPath dir map
        · rw [hp, Function.update_self]
        · rw [Function.update_of_ne hp, hnone]
    · rw [unpinMaps_cons_of_missing hfresh.1 hlen.1 hb]
      rfl

end Fresh

end XdpDetector
