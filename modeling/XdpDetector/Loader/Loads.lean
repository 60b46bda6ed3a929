import XdpDetector.Lib.Run
import XdpDetector.Loader.Params
import XdpDetector.Loader.Pin

/-!
# Load after load

The loader is run again and again, for one interface or for several, and the other tools open the
maps by the paths it has pinned them at. The objects come from one file, so that the names of their
maps are the same each time.

* `Load`, `loadStep`, `loads`: runs of the loader, from a clean file system;
* `load_ret`, `load_bound`, `load_frame`: one run where all or none of its names are bound;
* `latest`, `Newest`, **`newest_loads`**: every path is bound to the newest map of its name;
* `xdpStatsFd`, `dumpFd`: how the tools open a map;
* **`tools_open_newest`**: what they get.
-/

namespace XdpDetector

variable {names : List Path}

/-- **A run of the loader** for the interface `subdir`. -/
structure Load (names : List Path) where
  subdir : Path
  obj : LoadedObject subdir
  names_eq : obj.maps.map BpfMap.name = names
  no_period : '.' ∉ subdir
  no_slash : '/' ∉ subdir

def loadStep (fs : Bpffs) (l : Load names) : Bpffs :=
  (pinMapsInBpfObject l.obj.maps l.subdir fs).2.2

/-- The file system after the loads `ls`. -/
def loads (ls : List (Load names)) : Bpffs := Run.run loadStep (fun _ => none) ls

def pinPath (subdir name : Path) : Path := joinPath (joinPath pinBasedir subdir) name

/-- The map the object has under a name. -/
def Load.idOf (l : Load names) (name : Path) : Option ℕ :=
  (l.obj.maps.find? fun map => map.name = name).map BpfMap.id

theorem Load.exists_map (l : Load names) {name : Path} (h : name ∈ names) :
    ∃ map ∈ l.obj.maps, map.name = name := by
  rw [← l.names_eq] at h
  exact List.mem_map.mp h

theorem Load.name_mem (l : Load names) {map : BpfMap} (h : map ∈ l.obj.maps) : map.name ∈ names :=
  l.names_eq ▸ List.mem_map_of_mem h

theorem Load.idOf_name (l : Load names) {map : BpfMap} (h : map ∈ l.obj.maps) :
    l.idOf map.name = some map.id := by
  have hfind : (l.obj.maps.find? fun m => m.name = map.name) = some map := by
    cases hf : l.obj.maps.find? fun m => m.name = map.name with
    | none => exact absurd (List.find?_eq_none.mp hf map h) (by simp)
    | some m =>
      have hname : m.name = map.name := by simpa using List.find?_some hf
      rw [List.inj_on_of_nodup_map l.obj.nodup (List.mem_of_find?_eq_some hf) h hname]
  rw [idOf, hfind]
  rfl

/-- All names are bound in the directory of `subdir`, or none is. -/
def AllOrNone (names : List Path) (fs : Bpffs) (subdir : Path) : Prop :=
  (∀ name ∈ names, fs (pinPath subdir name) = none) ∨
    ∀ name ∈ names, (fs (pinPath subdir name)).isSome

/-! ## One load -/

section One

variable {fs : Bpffs} (l : Load names) (h : AllOrNone names fs l.subdir)

include h

/-- **One load** pins its maps where nothing is bound. -/
theorem pinMaps_allOrNone : ∃ fs', pinMapsInBpfObject l.obj.maps l.subdir fs =
      (0, (pinEach (joinPath pinBasedir l.subdir) l.obj.maps fs').2) ∧
    (∀ map ∈ l.obj.maps, fs' (pinPathOf l.subdir map) = none) ∧
    ∀ path, (∀ map ∈ l.obj.maps, path ≠ pinPathOf l.subdir map) → fs' path = fs path := by
  obtain ⟨tracking, hmem, hpath⟩ := l.obj.exists_tracking
  have htrack : joinPath (joinPath pinBasedir l.subdir) mapName =
      pinPath l.subdir tracking.name := hpath.symm
  rcases h with hnone | hall
  · refine ⟨fs, l.obj.pinMaps_of_free ?_, fun map hm => hnone _ (l.name_mem hm), fun _ _ => rfl⟩
    rw [htrack]
    exact hnone _ (l.name_mem hmem)
  · have hb : ∀ map ∈ l.obj.maps,
        (fs (unpinPath (joinPath pinBasedir l.subdir) map)).isSome := by
      intro map hm
      rw [l.obj.unpinPath_eq l.no_period hm]
      exact hall _ (l.name_mem hm)
    have hfile : (fs (joinPath (joinPath pinBasedir l.subdir) mapName)).isSome := by
      rw [htrack]
      exact hall _ (l.name_mem hmem)
    refine ⟨_, l.obj.pinMaps_of_bound hfile hb, fun map hm => ?_, fun path hp => ?_⟩
    · rw [← l.obj.unpinPath_eq l.no_period hm]
      exact if_pos (List.mem_map_of_mem hm)
    · refine if_neg fun hc => ?_
      obtain ⟨map, hm, rfl⟩ := List.mem_map.mp hc
      exact hp map hm (l.obj.unpinPath_eq l.no_period hm)

theorem load_ret : (pinMapsInBpfObject l.obj.maps l.subdir fs).1 = 0 := by
  obtain ⟨fs', he, -, -⟩ := pinMaps_allOrNone l h
  rw [he]

theorem load_bound {name : Path} (hn : name ∈ names) :
    loadStep fs l (pinPath l.subdir name) = l.idOf name := by
  obtain ⟨map, hm, rfl⟩ := l.exists_map hn
  obtain ⟨fs', he, hnone, -⟩ := pinMaps_allOrNone l h
  rw [loadStep, he, l.idOf_name hm]
  refine (pinEach_bound l.obj.fresh l.obj.path_lt l.obj.nodup hm).trans ?_
  rw [← pinPathOf, hnone map hm]
  rfl

theorem load_frame {path : Path} (hp : ∀ name ∈ names, path ≠ pinPath l.subdir name) :
    loadStep fs l path = fs path := by
  have hp' : ∀ map ∈ l.obj.maps, path ≠ pinPathOf l.subdir map := fun map hm =>
    hp map.name (l.name_mem hm)
  obtain ⟨fs', he, -, hframe⟩ := pinMaps_allOrNone l h
  rw [loadStep, he]
  exact (pinEach_frame l.obj.fresh l.obj.path_lt hp').trans (hframe path hp')

end One

/-! ## All loads -/

theorem pinPath_inj {subdir subdir' name name' : Path} (hs : '/' ∉ subdir) (hn : '/' ∉ name)
    (h : pinPath subdir name = pinPath subdir' name') : subdir = subdir' ∧ name = name' := by
  simp only [pinPath, joinPath, List.append_assoc, List.cons_append] at h
  have htail := List.tail_eq_of_cons_eq (List.append_cancel_left h)
  obtain ⟨hsub, -, hname⟩ := (List.append_cons_inj_of_notMem hs hn).mp htail
  exact ⟨hsub, hname⟩

/-- The newest load for an interface. -/
def latest (ls : List (Load names)) (subdir : Path) : Option (Load names) :=
  (ls.filter fun l => l.subdir = subdir).getLast?

theorem latest_snoc_self (ls : List (Load names)) (l : Load names) :
    latest (ls ++ [l]) l.subdir = some l := by
  simp [latest]

theorem latest_snoc_of_ne {subdir : Path} (ls : List (Load names)) {l : Load names}
    (h : l.subdir ≠ subdir) : latest (ls ++ [l]) subdir = latest ls subdir := by
  simp [latest, h]

/-- **Every path is bound to the newest map of its name.** -/
def Newest (ls : List (Load names)) (fs : Bpffs) : Prop :=
  ∀ subdir, '/' ∉ subdir → ∀ name ∈ names,
    fs (pinPath subdir name) = (latest ls subdir).bind fun l => l.idOf name

theorem Newest.allOrNone {ls : List (Load names)} {fs : Bpffs} (h : Newest ls fs) {subdir : Path}
    (hs : '/' ∉ subdir) : AllOrNone names fs subdir := by
  cases hl : latest ls subdir with
  | none =>
    refine Or.inl fun name hn => ?_
    rw [h subdir hs name hn, hl]
    rfl
  | some l =>
    refine Or.inr fun name hn => ?_
    obtain ⟨map, hm, rfl⟩ := l.exists_map hn
    rw [h subdir hs _ hn, hl, Option.bind_some, l.idOf_name hm]
    rfl

section All

variable (hslash : ∀ name ∈ names, '/' ∉ name)

include hslash

/-- **One more load** keeps the newest maps bound, and touches no other interface. -/
theorem newest_step {ls : List (Load names)} {fs : Bpffs} (h : Newest ls fs) (l : Load names) :
    Newest (ls ++ [l]) (loadStep fs l) := by
  intro subdir hs name hn
  have hall := h.allOrNone l.no_slash
  by_cases he : l.subdir = subdir
  · subst he
    rw [load_bound l hall hn, latest_snoc_self, Option.bind_some]
  · rw [latest_snoc_of_ne ls he, ← h subdir hs name hn]
    refine load_frame l hall fun name' _ hc => he ?_
    exact (pinPath_inj hs (hslash name hn) hc).1.symm

theorem newest_loads (ls : List (Load names)) : Newest ls (loads ls) := by
  refine Run.run_induction loadStep (P := Newest) ?_ (fun ls l h => newest_step hslash h l) ls
  intro subdir _ name _
  rfl

end All

/-! ## The tools -/

/-- `open_bpf_map_file`. -/
def openBpfMapFile (fs : Bpffs) (pinDir mapname : Path) : Option ℕ :=
  fs (snprintfPath (joinPath pinDir mapname))

/-- The map `xdp_stats` reads. -/
def xdpStatsFd (fs : Bpffs) (ifname : Path) : Option ℕ :=
  openBpfMapFile fs (snprintfPath (joinPath pinBasedir ifname)) accountingMapName

/-- The map `dump_map_to_csv` reads. -/
def dumpFd (fs : Bpffs) (ifname : Path) : Option ℕ :=
  let mapPath := snprintfPath (joinPath (joinPath pinBasedir ifname) mapName)
  if (fs mapPath).isSome then fs mapPath else none

/-- An interface name is short enough for every path built from it. -/
theorem pinPath_lt {ifname : Path} (hlen : ifname.length < ifNamesize) (name : Path)
    (hn : name.length < 256) : (pinPath ifname name).length < pathMax := by
  have hb : pinBasedir.length = 11 := rfl
  unfold ifNamesize at hlen
  rw [pinPath, length_joinPath, length_joinPath, hb]
  unfold pathMax
  omega

theorem xdpStatsFd_eq (fs : Bpffs) {ifname : Path} (hlen : ifname.length < ifNamesize) :
    xdpStatsFd fs ifname = fs (pinPath ifname accountingMapName) := by
  have hpath := pinPath_lt hlen accountingMapName (by decide)
  have hdir : (joinPath pinBasedir ifname).length < pathMax := by
    rw [pinPath, length_joinPath] at hpath
    omega
  rw [xdpStatsFd, openBpfMapFile, snprintfPath_of_lt hdir]
  exact congrArg fs (snprintfPath_of_lt hpath)

theorem dumpFd_eq (fs : Bpffs) {ifname : Path} (hlen : ifname.length < ifNamesize) :
    dumpFd fs ifname = fs (pinPath ifname mapName) := by
  have hpath : snprintfPath (joinPath (joinPath pinBasedir ifname) mapName) =
      pinPath ifname mapName := snprintfPath_of_lt (pinPath_lt hlen mapName (by decide))
  rw [dumpFd, hpath]
  cases fs (pinPath ifname mapName) <;> rfl

/-- **Every load succeeds, and the tools open its maps.** After any loads for any interfaces from a
clean file system, `xdp_stats` and `dump_map_to_csv` open the maps of the newest object loaded for
their interface, and find none if there is no such object; the same holds of a model written to the
path of `dt_map`. -/
theorem tools_open_newest (names : List Path) (hslash : ∀ name ∈ names, '/' ∉ name)
    (hdt : dtMapName ∈ names) (htrack : mapName ∈ names) (hac : accountingMapName ∈ names)
    (ls : List (Load names)) :
    (∀ ls₁ l ls₂, ls = ls₁ ++ l :: ls₂ →
      (pinMapsInBpfObject l.obj.maps l.subdir (loads ls₁)).1 = 0) ∧
    ∀ ifname, '/' ∉ ifname → ifname.length < ifNamesize →
      xdpStatsFd (loads ls) ifname = (latest ls ifname).bind (fun l => l.idOf accountingMapName) ∧
      dumpFd (loads ls) ifname = (latest ls ifname).bind (fun l => l.idOf mapName) ∧
      loads ls (pinPath ifname dtMapName) = (latest ls ifname).bind fun l => l.idOf dtMapName := by
  refine ⟨fun ls₁ l ls₂ _ => ?_, fun ifname hif hlen => ⟨?_, ?_, ?_⟩⟩
  · exact load_ret l ((newest_loads hslash ls₁).allOrNone l.no_slash)
  · rw [xdpStatsFd_eq _ hlen]
    exact newest_loads hslash ls ifname hif _ hac
  · rw [dumpFd_eq _ hlen]
    exact newest_loads hslash ls ifname hif _ htrack
  · exact newest_loads hslash ls ifname hif _ hdt

def detectorNames : List Path := [dtMapName, mapName, accountingMapName]

/-- The detector loaded for `eth0`, with maps of identities from `i` on. -/
def detectorLoad (i : ℕ) : Load detectorNames where
  subdir := ['e', 't', 'h', '0']
  obj :=
    { maps := [⟨dtMapName, i, none, false⟩, ⟨mapName, i + 1, none, false⟩,
        ⟨accountingMapName, i + 2, none, false⟩]
      nodup := (by decide : detectorNames.Nodup)
      fresh := by simp [BpfMap.Fresh]
      no_period := by simp [dtMapName, mapName, accountingMapName]
      path_lt := by simp [joinPath, pinBasedir, dtMapName, mapName, accountingMapName, pathMax]
      tracking := (by decide : mapName ∈ detectorNames) }
  names_eq := rfl
  no_period := by decide
  no_slash := by decide

theorem tools_open_newest_eth0 :
    xdpStatsFd (loads [detectorLoad 11, detectorLoad 21]) ['e', 't', 'h', '0'] = some 23 ∧
      dumpFd (loads [detectorLoad 11, detectorLoad 21]) ['e', 't', 'h', '1'] = none := by
  have h := (tools_open_newest detectorNames (by decide) (by decide) (by decide) (by decide)
    [detectorLoad 11, detectorLoad 21]).2
  exact ⟨(h _ (by decide) (by decide)).1, (h _ (by decide) (by decide)).2.1⟩

end XdpDetector
