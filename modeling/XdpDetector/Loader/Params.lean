import XdpDetector.Lib.Run
import XdpDetector.Loader.Libbpf
import Mathlib.Algebra.Group.Int.Defs
import Mathlib.Tactic.SplitIfs

/-!
# Command-line options

`parse_cmdline_args` of `common/common_params.c`: the loop over what `getopt_long` returns, which
fills in a `struct config`, or leaves the program.

* `Opt`: an option as `getopt_long` returns it, with its argument;
* `Config`, `Config.filenameStr`, `Config.prognameStr`: the fields, and the strings read from them;
* `parseOpt`, `parseCmdlineArgs`: the switch and the loop;
* `Opt.stops`, `Opt.apply`, `parseOpt_eq`: an option stops the program whatever came before it, or
  sets its fields;
* `Opt.device?`, `Opt.mode?`, `Opt.bind?` and so on: what an option sets;
* `FilledIn`, **`params_filled_in`**: what every list of options leads to.
-/

namespace XdpDetector

/-- `enum xdp_attach_mode`. -/
inductive AttachMode
  | unspec
  | native
  | skb
  | hw
deriving DecidableEq

/-- **An option**, as `getopt_long` returns it. `U` has an argument as `-U` and none as
`--unload`; the switch has no case for `F` and for `unknown`. -/
inductive Opt
  | d (arg : List Char)
  | r (arg : List Char)
  | A
  | S
  | N
  | offloadMode
  | M
  | U (arg : Option (List Char))
  | p
  | q
  | Q (arg : List Char)
  | filename (arg : List Char)
  | progname (arg : List Char)
  | L (arg : List Char)
  | R (arg : List Char)
  | c
  | z
  | unloadAll
  | h
  | F
  | unknown
deriving DecidableEq

/-- `struct config`, with the global `verbose`. The arrays of characters are given up to their first
null byte, or whole without one. -/
@[ext] structure Config where
  attachMode : AttachMode
  ifindex : ℤ
  ifname : Option (List Char)
  redirectIfindex : ℤ
  redirectIfname : Option (List Char)
  doUnload : Bool
  progId : UInt32
  reuseMaps : Bool
  filename : List Char
  progname : List Char
  srcMac : List Char
  destMac : List Char
  xskBindFlags : UInt16
  xskIfQueue : Int32
  xskPollMode : Bool
  unloadAll : Bool
  verbose : Bool

def ifNamesize : ℕ := 16

def sizeofFilename : ℕ := 512

def sizeofProgname : ℕ := 32

def sizeofMac : ℕ := 18

def xdpCopy : UInt16 := 2

def xdpZerocopy : UInt16 := 4

def exitFailOption : ℤ := 2

/-- `strncpy`: a source of `n` bytes or more is cut off without a null byte. -/
def strncpy (src : List Char) (n : ℕ) : List Char := src.take n

/-! ## Strings in the struct -/

/-- The string at the start of an array of `n` bytes: without a null byte, it goes on with what
comes next in the struct. -/
def cString (n : ℕ) (array next : List Char) : List Char :=
  if array.length < n then array else array ++ next

namespace Config

/-- Behind `dest_mac` comes a byte of padding, zero since the struct was cleared. -/
def destMacStr (cfg : Config) : List Char := cString sizeofMac cfg.destMac []

def srcMacStr (cfg : Config) : List Char := cString sizeofMac cfg.srcMac cfg.destMacStr

def prognameStr (cfg : Config) : List Char := cString sizeofProgname cfg.progname cfg.srcMacStr

def filenameStr (cfg : Config) : List Char := cString sizeofFilename cfg.filename cfg.prognameStr

end Config

/-! ## The loop -/

/-- `isspace` of the C locale. -/
def isspace (c : Char) : Bool := c = ' ' || 9 ≤ c.toNat && c.toNat ≤ 13

/-- `strtol` in base ten: white space, a sign and digits; a number out of range is cut to it. -/
def strtol (s : List Char) : ℤ :=
  let digits (s : List Char) : ℤ :=
    ((s.takeWhile Char.isDigit).foldl (fun n c => 10 * n + (c.toNat - '0'.toNat)) 0 : ℕ)
  let value :=
    match s.dropWhile isspace with
    | '-' :: s => -digits s
    | '+' :: s => digits s
    | s => digits s
  max (-2 ^ 63) (min (2 ^ 63 - 1) value)

/-- `atoi`: the `long` of `strtol` as an `int`. -/
def atoi (s : List Char) : Int32 := Int32.ofInt (strtol s)

example : atoi "4294967303".toList = 7 := by decide

/-- How a call ends: with a value, by `exit`, or in an access through a null pointer. -/
inductive Outcome (α : Type)
  | ok (a : α)
  | exit (code : ℤ)
  | fault

section Params

variable (ifNametoindex : List Char → ℕ)

/-- One round of the `switch`. -/
def parseOpt (cfg : Config) : Opt → Outcome Config
  | .d arg =>
    if arg.length ≥ ifNamesize then .exit exitFailOption
    else if ifNametoindex arg = 0 then .exit exitFailOption
    else .ok { cfg with ifname := some arg, ifindex := ifNametoindex arg }
  | .r arg =>
    if arg.length ≥ ifNamesize then .exit exitFailOption
    else if ifNametoindex arg = 0 then .exit exitFailOption
    else .ok { cfg with redirectIfname := some arg, redirectIfindex := ifNametoindex arg }
  | .A => .ok { cfg with attachMode := .unspec }
  | .S => .ok { cfg with
      attachMode := .skb
      xskBindFlags := cfg.xskBindFlags &&& ~~~ xdpZerocopy ||| xdpCopy }
  | .N => .ok { cfg with attachMode := .native }
  | .offloadMode => .ok { cfg with attachMode := .hw }
  | .M => .ok { cfg with reuseMaps := true }
  | .U none => .fault
  | .U (some arg) => .ok { cfg with
      doUnload := true
      progId := (atoi arg).toUInt32 }
  | .p => .ok { cfg with xskPollMode := true }
  | .q => .ok { cfg with verbose := false }
  | .Q arg => .ok { cfg with xskIfQueue := atoi arg }
  | .filename arg => .ok { cfg with filename := strncpy arg sizeofFilename }
  | .progname arg => .ok { cfg with progname := strncpy arg sizeofProgname }
  | .L arg => .ok { cfg with srcMac := strncpy arg sizeofMac }
  | .R arg => .ok { cfg with destMac := strncpy arg sizeofMac }
  | .c => .ok { cfg with xskBindFlags := cfg.xskBindFlags &&& ~~~ xdpZerocopy ||| xdpCopy }
  | .z => .ok { cfg with xskBindFlags := cfg.xskBindFlags &&& ~~~ xdpCopy ||| xdpZerocopy }
  | .unloadAll => .ok { cfg with unloadAll := true }
  | .h => .exit exitFailOption
  | .F => .exit exitFailOption
  | .unknown => .exit exitFailOption

/-- `parse_cmdline_args`. -/
def parseCmdlineArgs : List Opt → Config → Outcome Config
  | [], cfg => .ok cfg
  | o :: opts, cfg =>
    match parseOpt ifNametoindex cfg o with
    | .ok cfg => parseCmdlineArgs opts cfg
    | .exit code => .exit code
    | .fault => .fault

end Params

/-! ## What an option does -/

namespace Opt

variable (ifNametoindex : List Char → ℕ)

/-- The option ends the program. -/
def stops : Opt → Bool
  | d arg | r arg => arg.length ≥ ifNamesize || ifNametoindex arg = 0
  | U none | h | F | unknown => true
  | _ => false

/-- The fields as the option leaves them. -/
def apply (cfg : Config) (o : Opt) : Config :=
  match parseOpt ifNametoindex cfg o with
  | .ok cfg => cfg
  | _ => cfg

/-- The interface an option sets, with its index. -/
def device? : Opt → Option (Option (List Char) × ℤ)
  | d arg => some (some arg, ifNametoindex arg)
  | _ => none

def redirect? : Opt → Option (Option (List Char) × ℤ)
  | r arg => some (some arg, ifNametoindex arg)
  | _ => none

def mode? : Opt → Option AttachMode
  | A => some .unspec
  | S => some .skb
  | N => some .native
  | offloadMode => some .hw
  | _ => none

/-- The copy mode an option sets, among the flags of the socket. -/
def bind? : Opt → Option UInt16
  | S | c => some xdpCopy
  | z => some xdpZerocopy
  | _ => none

def file? : Opt → Option (List Char)
  | filename arg => some (strncpy arg sizeofFilename)
  | _ => none

def prog? : Opt → Option (List Char)
  | progname arg => some (strncpy arg sizeofProgname)
  | _ => none

def srcMac? : Opt → Option (List Char)
  | L arg => some (strncpy arg sizeofMac)
  | _ => none

def destMac? : Opt → Option (List Char)
  | R arg => some (strncpy arg sizeofMac)
  | _ => none

def unload? : Opt → Option (Bool × UInt32)
  | U (some arg) => some (true, (atoi arg).toUInt32)
  | _ => none

def queue? : Opt → Option Int32
  | Q arg => some (atoi arg)
  | _ => none

/-- An option without an argument that sets a field to `b`. -/
def flag? (o : Opt) (b : Bool) (o' : Opt) : Option Bool := if o' = o then some b else none

end Opt

section Step

variable {ifNametoindex : List Char → ℕ} {cfg : Config} {o : Opt}

theorem parseOpt_device {arg : List Char} {ok : Config} :
    (if arg.length ≥ ifNamesize then Outcome.exit exitFailOption
      else if ifNametoindex arg = 0 then Outcome.exit exitFailOption else Outcome.ok ok) =
    if (arg.length ≥ ifNamesize || ifNametoindex arg = 0 : Bool) then Outcome.exit exitFailOption
    else Outcome.ok ok := by
  by_cases hlen : arg.length ≥ ifNamesize
  · simp [hlen]
  · by_cases hidx : ifNametoindex arg = 0
    · simp [hidx]
    · simp [hlen, hidx]

/-- **An option stops the program or sets its fields**, whatever came before it. -/
theorem parseOpt_eq : parseOpt ifNametoindex cfg o =
    if o.stops ifNametoindex then
      if o = .U none then .fault else .exit exitFailOption
    else .ok (o.apply ifNametoindex cfg) := by
  cases o with
  | d arg | r arg =>
    rw [Opt.apply, parseOpt, parseOpt_device, Opt.stops]
    split_ifs with hs hu
    · exact hu.elim
    · rfl
    · rfl
  | U arg => cases arg <;> rfl
  | _ => rfl

variable (ifNametoindex cfg) in
theorem parseCmdlineArgs_eq (opts : List Opt) : parseCmdlineArgs ifNametoindex opts cfg =
    match opts.find? (Opt.stops ifNametoindex) with
    | some o => if o = .U none then .fault else .exit exitFailOption
    | none => .ok (Run.run (fun cfg o => Opt.apply ifNametoindex cfg o) cfg opts) := by
  induction opts generalizing cfg with
  | nil => rfl
  | cons o opts ih =>
    rw [parseCmdlineArgs, parseOpt_eq, List.find?_cons]
    cases ho : o.stops ifNametoindex with
    | true =>
      by_cases hu : o = .U none
      · simp [hu]
      · simp [hu]
    | false =>
      simp only [Bool.false_eq_true, if_false]
      exact ih _

end Step

/-! ## All options -/

section Flags

variable {x y c z : UInt16}

/-- Of two flags one is set and the other cleared. -/
theorem set_one_flag (h : c &&& z = 0) : (x &&& ~~~ z ||| c) &&& (c ||| z) = c := by
  apply UInt16.toBitVec_inj.mp
  ext i hi
  have hcz : (c.toBitVec[i] && z.toBitVec[i]) = false := by
    have hbit := congrArg (fun y : UInt16 => y.toBitVec[i]) h
    simpa using hbit
  simp only [UInt16.toBitVec_and, UInt16.toBitVec_or, UInt16.toBitVec_not, BitVec.getElem_and,
    BitVec.getElem_or, BitVec.getElem_not]
  revert hcz
  generalize c.toBitVec[i] = c
  generalize z.toBitVec[i] = z
  generalize x.toBitVec[i] = x
  revert c z x
  decide

/-- The others stay as they are. -/
theorem keep_other_flags : (x &&& ~~~ z ||| c) &&& ~~~ (c ||| z) = x &&& ~~~ (c ||| z) := by
  apply UInt16.toBitVec_inj.mp
  ext i hi
  simp only [UInt16.toBitVec_and, UInt16.toBitVec_or, UInt16.toBitVec_not, BitVec.getElem_and,
    BitVec.getElem_or, BitVec.getElem_not]
  generalize c.toBitVec[i] = c
  generalize z.toBitVec[i] = z
  generalize x.toBitVec[i] = x
  revert c z x
  decide

/-- A number is its bits in a mask and its bits outside. -/
theorem and_or_and_not : x &&& c ||| x &&& ~~~ c = x := by
  apply UInt16.toBitVec_inj.mp
  ext i hi
  simp only [UInt16.toBitVec_and, UInt16.toBitVec_or, UInt16.toBitVec_not, BitVec.getElem_and,
    BitVec.getElem_or, BitVec.getElem_not]
  generalize c.toBitVec[i] = c
  generalize x.toBitVec[i] = x
  revert c x
  decide

end Flags

/-- The two flags of the copy mode. -/
def Config.bindMode (cfg : Config) : UInt16 := cfg.xskBindFlags &&& (xdpCopy ||| xdpZerocopy)

/-- The other flags of the socket. -/
def Config.otherFlags (cfg : Config) : UInt16 :=
  cfg.xskBindFlags &&& ~~~ (xdpCopy ||| xdpZerocopy)

/-- What the last option for a field sets it to, else `init`. -/
def lastOf {A : Type} (set? : Opt → Option A) (opts : List Opt) (init : A) : A :=
  ((opts.filterMap set?).getLast?).getD init

/-- **What the options `opts` make of `init`**: for every field the last option for it counts. -/
structure FilledIn (ifNametoindex : List Char → ℕ) (opts : List Opt) (init cfg : Config) :
    Prop where
  device : (cfg.ifname, cfg.ifindex) =
    lastOf (Opt.device? ifNametoindex) opts (init.ifname, init.ifindex)
  redirect : (cfg.redirectIfname, cfg.redirectIfindex) =
    lastOf (Opt.redirect? ifNametoindex) opts (init.redirectIfname, init.redirectIfindex)
  mode : cfg.attachMode = lastOf Opt.mode? opts init.attachMode
  bind : cfg.bindMode = lastOf Opt.bind? opts init.bindMode
  otherFlags : cfg.otherFlags = init.otherFlags
  file : cfg.filename = lastOf Opt.file? opts init.filename
  prog : cfg.progname = lastOf Opt.prog? opts init.progname
  srcMac : cfg.srcMac = lastOf Opt.srcMac? opts init.srcMac
  destMac : cfg.destMac = lastOf Opt.destMac? opts init.destMac
  unload : (cfg.doUnload, cfg.progId) = lastOf Opt.unload? opts (init.doUnload, init.progId)
  queue : cfg.xskIfQueue = lastOf Opt.queue? opts init.xskIfQueue
  reuseMaps : cfg.reuseMaps = lastOf (Opt.flag? .M true) opts init.reuseMaps
  pollMode : cfg.xskPollMode = lastOf (Opt.flag? .p true) opts init.xskPollMode
  unloadAll : cfg.unloadAll = lastOf (Opt.flag? .unloadAll true) opts init.unloadAll
  verbose : cfg.verbose = lastOf (Opt.flag? .q false) opts init.verbose
  known : ∀ arg, Opt.d arg ∈ opts ∨ Opt.r arg ∈ opts →
    arg.length < ifNamesize ∧ ifNametoindex arg ≠ 0

section All

variable {ifNametoindex : List Char → ℕ} {cfg : Config} {o : Opt}

theorem apply_d {arg : List Char} (h : (Opt.d arg).stops ifNametoindex = false) :
    (Opt.d arg).apply ifNametoindex cfg =
      { cfg with ifname := some arg, ifindex := ifNametoindex arg } := by
  rw [Opt.apply, parseOpt, parseOpt_device, if_neg (by simpa [Opt.stops] using h)]

theorem apply_r {arg : List Char} (h : (Opt.r arg).stops ifNametoindex = false) :
    (Opt.r arg).apply ifNametoindex cfg =
      { cfg with redirectIfname := some arg, redirectIfindex := ifNametoindex arg } := by
  rw [Opt.apply, parseOpt, parseOpt_device, if_neg (by simpa [Opt.stops] using h)]

/-- What one option does to the fields. -/
theorem filledIn_apply (h : o.stops ifNametoindex = false) (cfg : Config) :
    FilledIn ifNametoindex [o] cfg (o.apply ifNametoindex cfg) := by
  cases o with
  | d arg =>
    rw [apply_d h]
    simp only [Opt.stops, Bool.or_eq_false_iff, decide_eq_false_iff_not] at h
    constructor
    case known => simpa using h
    all_goals rfl
  | r arg =>
    rw [apply_r h]
    simp only [Opt.stops, Bool.or_eq_false_iff, decide_eq_false_iff_not] at h
    constructor
    case known => simpa using h
    all_goals rfl
  | S | c =>
    constructor
    case bind => exact set_one_flag (by decide)
    case otherFlags => exact keep_other_flags
    case known => simp
    all_goals rfl
  | z =>
    constructor
    case bind =>
      rw [Config.bindMode, UInt16.or_comm]
      exact set_one_flag (by decide)
    case otherFlags =>
      rw [Config.otherFlags, Config.otherFlags, UInt16.or_comm xdpCopy]
      exact keep_other_flags
    case known => simp
    all_goals rfl
  | U arg =>
    cases arg with
    | none => cases h
    | some arg =>
      constructor
      case known => simp
      all_goals rfl
  | h | F | unknown => cases h
  | _ =>
    constructor
    case known => simp
    all_goals rfl

/-- **A list of options that do not stop the program.** -/
theorem filledIn_run {opts : List Opt} (h : ∀ o ∈ opts, o.stops ifNametoindex = false)
    (init : Config) : FilledIn ifNametoindex opts init
      (Run.run (fun cfg o => Opt.apply ifNametoindex cfg o) init opts) := by
  have hone : ∀ cfg, ∀ o ∈ opts, FilledIn ifNametoindex [o] cfg (o.apply ifNametoindex cfg) :=
    fun cfg o ho => filledIn_apply (h o ho) cfg
  have hfield : ∀ {A : Type} (get : Config → A) (set? : Opt → Option A),
      (∀ cfg, ∀ o ∈ opts, get (o.apply ifNametoindex cfg) = lastOf set? [o] (get cfg)) →
      get (Run.run (fun cfg o => Opt.apply ifNametoindex cfg o) init opts) =
        lastOf set? opts (get init) := by
    intro A get set? hset
    refine Run.field_run _ (fun cfg o ho => ?_) init
    rw [hset cfg o ho, lastOf]
    cases hs : set? o <;> simp [hs]
  constructor
  case device =>
    exact hfield (fun cfg => (cfg.ifname, cfg.ifindex)) _ fun cfg o ho => (hone cfg o ho).device
  case redirect =>
    exact hfield (fun cfg => (cfg.redirectIfname, cfg.redirectIfindex)) _ fun cfg o ho =>
      (hone cfg o ho).redirect
  case otherFlags =>
    simpa [lastOf] using hfield Config.otherFlags (fun _ => none) fun cfg o ho =>
      (hone cfg o ho).otherFlags
  case unload =>
    exact hfield (fun cfg => (cfg.doUnload, cfg.progId)) _ fun cfg o ho => (hone cfg o ho).unload
  case known =>
    rintro arg (ha | ha)
    · exact (hone init _ ha).known arg (by simp)
    · exact (hone init _ ha).known arg (by simp)
  case mode => exact hfield Config.attachMode _ fun cfg o ho => (hone cfg o ho).mode
  case bind => exact hfield Config.bindMode _ fun cfg o ho => (hone cfg o ho).bind
  case file => exact hfield Config.filename _ fun cfg o ho => (hone cfg o ho).file
  case prog => exact hfield Config.progname _ fun cfg o ho => (hone cfg o ho).prog
  case srcMac => exact hfield Config.srcMac _ fun cfg o ho => (hone cfg o ho).srcMac
  case destMac => exact hfield Config.destMac _ fun cfg o ho => (hone cfg o ho).destMac
  case queue => exact hfield Config.xskIfQueue _ fun cfg o ho => (hone cfg o ho).queue
  case reuseMaps => exact hfield Config.reuseMaps _ fun cfg o ho => (hone cfg o ho).reuseMaps
  case pollMode => exact hfield Config.xskPollMode _ fun cfg o ho => (hone cfg o ho).pollMode
  case unloadAll => exact hfield Config.unloadAll _ fun cfg o ho => (hone cfg o ho).unloadAll
  case verbose => exact hfield Config.verbose _ fun cfg o ho => (hone cfg o ho).verbose

/-- **The configuration is determined**: no field is left open. -/
theorem FilledIn.unique {opts : List Opt} {init cfg' : Config}
    (h : FilledIn ifNametoindex opts init cfg) (h' : FilledIn ifNametoindex opts init cfg') :
    cfg' = cfg := by
  have hflags : cfg'.xskBindFlags = cfg.xskBindFlags := by
    have hbind : cfg'.bindMode = cfg.bindMode := h'.bind.trans h.bind.symm
    have hother : cfg'.otherFlags = cfg.otherFlags := h'.otherFlags.trans h.otherFlags.symm
    unfold Config.bindMode at hbind
    unfold Config.otherFlags at hother
    rw [← and_or_and_not (x := cfg'.xskBindFlags), hbind, hother, and_or_and_not]
  obtain ⟨hname, hindex⟩ := Prod.ext_iff.mp (h'.device.trans h.device.symm)
  obtain ⟨hrname, hrindex⟩ := Prod.ext_iff.mp (h'.redirect.trans h.redirect.symm)
  obtain ⟨hunload, hid⟩ := Prod.ext_iff.mp (h'.unload.trans h.unload.symm)
  apply Config.ext
  case attachMode => exact h'.mode.trans h.mode.symm
  case ifindex => exact hindex
  case ifname => exact hname
  case redirectIfindex => exact hrindex
  case redirectIfname => exact hrname
  case doUnload => exact hunload
  case progId => exact hid
  case reuseMaps => exact h'.reuseMaps.trans h.reuseMaps.symm
  case filename => exact h'.file.trans h.file.symm
  case progname => exact h'.prog.trans h.prog.symm
  case srcMac => exact h'.srcMac.trans h.srcMac.symm
  case destMac => exact h'.destMac.trans h.destMac.symm
  case xskBindFlags => exact hflags
  case xskIfQueue => exact h'.queue.trans h.queue.symm
  case xskPollMode => exact h'.pollMode.trans h.pollMode.symm
  case unloadAll => exact h'.unloadAll.trans h.unloadAll.symm
  case verbose => exact h'.verbose.trans h.verbose.symm

end All

/-- **Every list of options.** The first option that stops the program decides how: `--unload` goes
through a null pointer, any other exits with `EXIT_FAIL_OPTION`, `-F` and `--force` among them.
Without one the configuration is filled in, the last option for a field counting. -/
theorem params_filled_in (ifNametoindex : List Char → ℕ) (opts : List Opt) (init : Config) :
    match opts.find? (Opt.stops ifNametoindex) with
    | some o => parseCmdlineArgs ifNametoindex opts init =
        if o = .U none then .fault else .exit exitFailOption
    | none => ∃ cfg, parseCmdlineArgs ifNametoindex opts init = .ok cfg ∧
        FilledIn ifNametoindex opts init cfg ∧
        ∀ cfg', FilledIn ifNametoindex opts init cfg' → cfg' = cfg := by
  have heq := parseCmdlineArgs_eq ifNametoindex init opts
  cases hf : opts.find? (Opt.stops ifNametoindex) with
  | some o =>
    rw [hf] at heq
    exact heq
  | none =>
    rw [hf] at heq
    have hgo : ∀ o ∈ opts, o.stops ifNametoindex = false := fun o ho => by
      simpa using List.find?_eq_none.mp hf o ho
    have hfill := filledIn_run hgo init
    exact ⟨_, heq, hfill, fun cfg' h' => hfill.unique h'⟩

end XdpDetector
