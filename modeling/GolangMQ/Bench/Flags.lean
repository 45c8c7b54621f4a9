import GolangMQ.Bench.Config
import Mathlib.Algebra.Group.Nat.Defs
import Mathlib.Data.List.Forall2
import Mathlib.Data.List.Induction
import Mathlib.Tactic.Common

/-! # The order of the flags

The flag package sets the flags from left to right until a `Set` fails. A `-distribution` is for the axis of the last
`-conns`, `-channels` or `-pub-channels` before it, which the flags remember in a cursor they share. `Binds` says what
a distribution ends up as without the cursor, from the positions of the settings.
-/

namespace GolangMQ.Bench

/-- The digits of a decimal numeral. -/
def Digits (digits : List Char) : Prop := digits ≠ [] ∧ digits.all Char.isDigit = true

instance (digits : List Char) : Decidable (Digits digits) := inferInstanceAs (Decidable (_ ∧ _))

/-- The decimal numerals of an integer, with or without a sign. -/
inductive Spells : List Char → ℤ → Prop
  | unsigned {digits : List Char} (numeral : Digits digits) : Spells digits (Nat.ofDigitChars 10 digits 0)
  | plus {digits : List Char} (numeral : Digits digits) : Spells ('+' :: digits) (Nat.ofDigitChars 10 digits 0)
  | minus {digits : List Char} (numeral : Digits digits) : Spells ('-' :: digits) (-Nat.ofDigitChars 10 digits 0)

/-- The sign of a numeral, if any, and what follows it. -/
def signed : List Char → Bool × List Char
  | '-' :: digits => (true, digits)
  | '+' :: digits => (false, digits)
  | digits => (false, digits)

/-- `strconv.Atoi`; an `int` has 64 bits. -/
def atoi (s : String) : Option Int64 :=
  let (neg, digits) := signed s.toList
  if ¬Digits digits then none
  else
    let un := Nat.ofDigitChars 10 digits 0
    if neg then
      if 2 ^ 63 < un then none else some (Int64.ofInt (-un))
    else if 2 ^ 63 ≤ un then none
    else some (Int64.ofInt un)

private theorem spells_iff {chars : List Char} {n : ℤ} :
    Spells chars n ↔ Digits (signed chars).2 ∧
      n = if (signed chars).1 then -(Nat.ofDigitChars 10 (signed chars).2 0 : ℤ)
        else Nat.ofDigitChars 10 (signed chars).2 0 := by
  constructor
  · intro spells
    cases spells with
    | unsigned numeral =>
      -- a digit is no sign
      have plain : signed chars = (false, chars) := by
        fun_cases signed chars with
        | case1 digits => exact absurd (List.all_eq_true.1 numeral.2 _ List.mem_cons_self) (by decide)
        | case2 digits => exact absurd (List.all_eq_true.1 numeral.2 _ List.mem_cons_self) (by decide)
        | case3 => rfl
      rw [plain]
      exact ⟨numeral, rfl⟩
    | plus numeral => exact ⟨numeral, rfl⟩
    | minus numeral => exact ⟨numeral, rfl⟩
  · rintro ⟨numeral, rfl⟩
    revert numeral
    fun_cases signed chars with
    | case1 digits => exact .minus
    | case2 digits => exact .plus
    | case3 => exact .unsigned

private theorem ofInt_eq_iff {n : ℤ} {v : Int64} (low : -2 ^ 63 ≤ n) (high : n < 2 ^ 63) :
    Int64.ofInt n = v ↔ v.toInt = n := by
  constructor
  · rintro rfl
    exact Int64.toInt_ofInt_of_le low high
  · rintro rfl
    exact Int64.ofInt_toInt v

/-- The numerals of the integers that an `int` can hold are accepted. -/
private theorem atoi_eq_some_iff {s : String} {v : Int64} : atoi s = some v ↔ Spells s.toList v.toInt := by
  have low := v.le_toInt
  have high := v.toInt_lt
  rw [spells_iff, atoi]
  rcases signed s.toList with ⟨neg, digits⟩
  dsimp only
  by_cases numeral : Digits digits
  · generalize Nat.ofDigitChars 10 digits 0 = un
    cases neg with
    | true =>
      by_cases large : 2 ^ 63 < un
      · have out : v.toInt ≠ -un := by omega
        simp only [numeral, large, out, not_true_eq_false, if_false, if_true, and_false, reduceCtorEq]
      · have same := ofInt_eq_iff (n := -un) (v := v) (by omega) (by omega)
        simp only [numeral, large, same, not_true_eq_false, if_false, if_true, Option.some.injEq, true_and]
    | false =>
      by_cases large : 2 ^ 63 ≤ un
      · have out : v.toInt ≠ un := by omega
        simp only [numeral, large, out, not_true_eq_false, if_false, if_true, and_false, reduceCtorEq,
          Bool.false_eq_true]
      · have same := ofInt_eq_iff (n := un) (v := v) (by omega) (by omega)
        simp only [numeral, large, same, not_true_eq_false, if_false, Option.some.injEq, true_and,
          Bool.false_eq_true]
  · simp [numeral]

/-- What is used of `unicode.ToLower`: it lowers the letters of ASCII, and nothing else to a letter of the
distributions. -/
structure Unicode where
  toLower : Char → Char
  ascii : ∀ c : Char, c.toNat < 128 → toLower c = c.toLower
  others : ∀ c : Char, 128 ≤ c.toNat → toLower c ∉ "evnu".toList

/-- The text is the word, in upper or lower case. -/
def CaseInsensitive (text word : String) : Prop :=
  List.Forall₂ (fun c letter => c = letter ∨ c = letter.toUpper) text.toList word.toList

/-- The text names the distribution. -/
inductive Names : String → Distribution → Prop
  | even {text : String} (same : CaseInsensitive text "even") : Names text .even
  | uneven {text : String} (same : CaseInsensitive text "uneven") : Names text .uneven

namespace Unicode

variable (u : Unicode)

private theorem toLower_eq_iff {c letter : Char} (used : letter ∈ "evnu".toList) :
    u.toLower c = letter ↔ c = letter ∨ c = letter.toUpper := by
  have letters : letter = 'e' ∨ letter = 'v' ∨ letter = 'n' ∨ letter = 'u' := by simpa using used
  have small : letter.toNat < 128 ∧ letter.toUpper.toNat < 128 := by
    rcases letters with rfl | rfl | rfl | rfl <;> decide
  by_cases plain : c.toNat < 128
  · have ascii : ∀ n < 128, (Char.ofNat n).toLower = letter ↔
        Char.ofNat n = letter ∨ Char.ofNat n = letter.toUpper := by
      rcases letters with rfl | rfl | rfl | rfl <;> decide
    have known := ascii c.toNat plain
    rw [Char.ofNat_toNat] at known
    rw [u.ascii c plain, known]
  · constructor
    · rintro rfl
      exact absurd used (u.others c (Nat.le_of_not_lt plain))
    · rintro (rfl | rfl)
      · exact absurd small.1 plain
      · exact absurd small.2 plain

/-- `strings.ToLower` -/
def lower (s : String) : String := s.map u.toLower

private theorem lower_eq_iff {text word : String} (used : word.toList ⊆ "evnu".toList) :
    u.lower text = word ↔ CaseInsensitive text word := by
  rw [CaseInsensitive, lower, ← String.toList_inj, String.toList_map]
  generalize text.toList = text at *
  generalize word.toList = word at *
  induction word generalizing text with
  | nil => simp
  | cons letter word ih =>
    cases text with
    | nil => simp
    | cons c text =>
      rw [List.map_cons, List.cons.injEq, List.forall₂_cons, u.toLower_eq_iff (used List.mem_cons_self),
        ih text fun l member => used (List.mem_cons_of_mem _ member)]

/-- The distribution that `distributionFlag.Set` reads. -/
def parseDistribution (s : String) : Option Distribution :=
  if u.lower s = "even" then some .even else if u.lower s = "uneven" then some .uneven else none

private theorem parseDistribution_eq_some_iff {s : String} {d : Distribution} :
    u.parseDistribution s = some d ↔ Names s d := by
  have even : u.lower s = "even" ↔ CaseInsensitive s "even" := u.lower_eq_iff (by simp)
  have uneven : u.lower s = "uneven" ↔ CaseInsensitive s "uneven" := u.lower_eq_iff (by simp)
  constructor
  · intro parsed
    simp only [parseDistribution] at parsed
    split_ifs at parsed with isEven isUneven
    · cases parsed
      exact .even (even.1 isEven)
    · cases parsed
      exact .uneven (uneven.1 isUneven)
  · intro names
    cases names with
    | even same => rw [parseDistribution, if_pos (even.2 same)]
    | uneven same =>
      have isUneven := uneven.2 same
      rw [parseDistribution, if_neg (by rw [isUneven]; decide), if_pos isUneven]

end Unicode

/-- The axes of the distributions, by the flags that set their sizes. -/
inductive Axis where
  | conns
  | channels
  | pubChannels
deriving DecidableEq, Repr

/-- A flag that is no axis, with a value that it accepts. -/
inductive OtherFlag where
  | addr (value : String)
  | pubConns (value : Int64)
  | consConns (value : Int64)
  | consChannels (value : Int64)
  | maxChannelsPerConn (value : Int64)
  | maxConsumersPerChannel (value : Int64)
  | maxPublishersPerChannel (value : Int64)
  | publishers (value : Int64)
  | consumers (value : Int64)
  | msgs (value : Int64)
  | size (value : Int64)
  | ack (value : Bool)
  | prefetch (value : Int64)
  | duration (value : Int64)
  | warmup (value : Int64)
  | report (value : Int64)
  | drainTimeout (value : Int64)
  | output (value : String)
  | quiet (value : Bool)
deriving DecidableEq, Repr

namespace Config

def setAxis (c : Config) (v : Int64) : Axis → Config
  | .conns => { c with conns := v }
  | .channels => { c with channels := v }
  | .pubChannels => { c with pubChannels := v }

def dist (c : Config) : Axis → Distribution
  | .conns => c.connsDist
  | .channels => c.channelsDist
  | .pubChannels => c.pubChannelsDist

def setDist (c : Config) (d : Distribution) : Axis → Config
  | .conns => { c with connsDist := d }
  | .channels => { c with channelsDist := d }
  | .pubChannels => { c with pubChannelsDist := d }

/-- The variables of `run` that the flags are bound to. -/
def setOther (c : Config) : OtherFlag → Config
  | .addr v => { c with addr := v }
  | .pubConns v => { c with pubConns := v }
  | .consConns v => { c with consConns := v }
  | .consChannels v => { c with consChannels := v }
  | .maxChannelsPerConn v => { c with maxChannelsPerConn := v }
  | .maxConsumersPerChannel v => { c with maxConsumersPerChannel := v }
  | .maxPublishersPerChannel v => { c with maxPublishersPerChannel := v }
  | .publishers v => { c with publishers := v }
  | .consumers v => { c with consumers := v }
  | .msgs v => { c with msgs := v }
  | .size v => { c with size := v }
  | .ack v => { c with ack := v }
  | .prefetch v => { c with prefetch := v }
  | .duration v => { c with duration := v }
  | .warmup v => { c with warmup := v }
  | .report v => { c with report := v }
  | .drainTimeout v => { c with drainTimeout := v }
  | .output v => { c with output := v }
  | .quiet v => { c with quiet := v }

@[simp] theorem dist_setAxis (c : Config) (v : Int64) (axis a : Axis) : (c.setAxis v axis).dist a = c.dist a := by
  cases axis <;> cases a <;> rfl

@[simp] theorem dist_setOther (c : Config) (flag : OtherFlag) (a : Axis) : (c.setOther flag).dist a = c.dist a := by
  cases flag <;> cases a <;> rfl

private theorem dist_setDist (c : Config) (d : Distribution) (axis a : Axis) :
    (c.setDist d axis).dist a = if a = axis then d else c.dist a := by
  cases axis <;> cases a <;> rfl

end Config

/-- What the flags share: the configuration, and the axis that `AxisCursor` remembers. -/
structure Flags where
  cfg : Config := {}
  last : Option Axis := none
deriving DecidableEq, Repr

/-- A flag of the command line with its value. -/
inductive Setting where
  | axis (axis : Axis) (value : String)
  | distribution (value : String)
  | other (flag : OtherFlag)
deriving DecidableEq, Repr

namespace Flags

variable (u : Unicode)

/-- `intAxisFlag.Set`. -/
def setAxis (f : Flags) (axis : Axis) (s : String) : Flags × Option Errorf :=
  match atoi s with
  | none => (f, some ⟨"invalid integer %q", [.text s]⟩)
  | some v => ({ cfg := f.cfg.setAxis v axis, last := some axis }, none)

/-- `distributionFlag.Set`. -/
def setDistribution (f : Flags) (s : String) : Flags × Option Errorf :=
  match u.parseDistribution s with
  | none => (f, some ⟨"invalid distribution %q (want even|uneven)", [.text s]⟩)
  | some d =>
    match f.last with
    | some axis => ({ f with cfg := f.cfg.setDist d axis }, none)
    | none =>
      (f, some ⟨"-distribution must be preceded by -conns, -channels or -pub-channels on the command line", []⟩)

def set (f : Flags) : Setting → Flags × Option Errorf
  | .axis axis s => f.setAxis axis s
  | .distribution s => f.setDistribution u s
  | .other flag => ({ f with cfg := f.cfg.setOther flag }, none)

/-- The flag package: from left to right, until the first error. -/
def parse (f : Flags) : List Setting → Flags × Option Errorf
  | [] => (f, none)
  | setting :: rest =>
    match f.set u setting with
    | (f, some err) => (f, some err)
    | (f, none) => f.parse rest

end Flags

/-- The axis that a setting is for, if it is an axis flag. -/
def Setting.axis? : Setting → Option Axis
  | .axis a _ => some a
  | .distribution _ | .other _ => none

/-- The axis of the last axis flag. -/
def nearestAxis (settings : List Setting) : Option Axis := (settings.filterMap Setting.axis?).getLast?

/-- At position `i` is a `-distribution` for the axis `a`. -/
def BoundAt (settings : List Setting) (a : Axis) (i : ℕ) (value : String) : Prop :=
  settings[i]? = some (.distribution value) ∧ nearestAxis (settings.take i) = some a

/-- The distribution of the axis `a` after the settings: the value of the last `-distribution` for that axis, or the
default. -/
inductive Binds (settings : List Setting) (a : Axis) (d : Distribution) : Prop
  | last {i : ℕ} {value : String} (bound : BoundAt settings a i value) (names : Names value d)
      (latest : ∀ j other, BoundAt settings a j other → j ≤ i)
  | default (unbound : ∀ i value, ¬BoundAt settings a i value) (same : d = ({} : Config).dist a)

/-- The settings that are rejected after others: an axis flag whose value is no integer that an `int` can hold, and a
`-distribution` with a value that is no distribution, or without an axis before it. -/
inductive Rejected (before : List Setting) : Setting → Prop
  | axis {axis : Axis} {value : String} (noInteger : ∀ v : Int64, ¬Spells value.toList v.toInt) :
      Rejected before (.axis axis value)
  | invalid {value : String} (nameless : ∀ d, ¬Names value d) : Rejected before (.distribution value)
  | unbound {value : String} (noAxis : nearestAxis before = none) : Rejected before (.distribution value)

private theorem nearestAxis_concat (settings : List Setting) (setting : Setting) :
    nearestAxis (settings ++ [setting]) = setting.axis?.or (nearestAxis settings) := by
  cases setting <;> simp [nearestAxis, Setting.axis?]

private theorem boundAt_concat {settings : List Setting} {setting : Setting} {a : Axis} {i : ℕ} {value : String} :
    BoundAt (settings ++ [setting]) a i value ↔ BoundAt settings a i value ∨
      i = settings.length ∧ setting = .distribution value ∧ nearestAxis settings = some a := by
  rcases Nat.lt_trichotomy i settings.length with inside | rfl | outside
  · simp [BoundAt, List.getElem?_append_left inside, List.take_append_of_le_length (Nat.le_of_lt inside),
      Nat.ne_of_lt inside]
  · simp [BoundAt]
  · have beyond : (settings ++ [setting])[i]? = none := by simp; omega
    simp [BoundAt, beyond, Nat.ne_of_gt outside, List.getElem?_eq_none (Nat.le_of_lt outside)]

/-- A setting that is no `-distribution` for an axis leaves its distribution as it is. -/
theorem Binds.concat {settings : List Setting} {setting : Setting} {a : Axis} {d : Distribution}
    (binds : Binds settings a d)
    (unrelated : ∀ value, setting = .distribution value → nearestAxis settings ≠ some a) :
    Binds (settings ++ [setting]) a d := by
  have same (i : ℕ) (value : String) : BoundAt (settings ++ [setting]) a i value ↔ BoundAt settings a i value := by
    rw [boundAt_concat, or_iff_left]
    rintro ⟨-, isDistribution, isAxis⟩
    exact unrelated value isDistribution isAxis
  cases binds with
  | last bound names latest =>
    exact .last ((same _ _).2 bound) names fun j other later => latest j other ((same _ _).1 later)
  | default unbound value => exact .default (fun i value bound => unbound i value ((same _ _).1 bound)) value

/-- A `-distribution` for an axis is the last one. -/
theorem Binds.rebound {settings : List Setting} {value : String} {a : Axis} {d : Distribution}
    (isAxis : nearestAxis settings = some a) (names : Names value d) :
    Binds (settings ++ [.distribution value]) a d := by
  refine .last (boundAt_concat.2 (.inr ⟨rfl, rfl, isAxis⟩)) names fun j other bound => ?_
  have inside := (List.getElem?_eq_some_iff.1 bound.1).1
  rw [List.length_append, List.length_singleton] at inside
  omega

/-- The cursor is at the last axis flag, and the distributions are those of the settings. -/
structure Flags.Follows (f : Flags) (settings : List Setting) : Prop where
  cursor : f.last = nearestAxis settings
  bound : ∀ a, Binds settings a (f.cfg.dist a)

private theorem Flags.Follows.init : ({} : Flags).Follows [] :=
  ⟨rfl, fun _ => .default (fun _ _ bound => by simp [BoundAt] at bound) rfl⟩

namespace Flags

variable (u : Unicode) {f : Flags} {settings : List Setting}

/-- What `Set` does with a value that it accepts or rejects. -/
inductive Sets (f : Flags) : Setting → Flags × Option Errorf → Prop
  | axis {axis : Axis} {value : String} {v : Int64} (spells : Spells value.toList v.toInt) :
      Sets f (.axis axis value) ({ cfg := f.cfg.setAxis v axis, last := some axis }, none)
  | noInteger {axis : Axis} {value : String} (noInteger : ∀ v : Int64, ¬Spells value.toList v.toInt) (err : Errorf) :
      Sets f (.axis axis value) (f, some err)
  | distribution {value : String} {d : Distribution} {axis : Axis} (names : Names value d)
      (cursor : f.last = some axis) : Sets f (.distribution value) ({ f with cfg := f.cfg.setDist d axis }, none)
  | invalid {value : String} (nameless : ∀ d, ¬Names value d) (err : Errorf) :
      Sets f (.distribution value) (f, some err)
  | unbound {value : String} (cursor : f.last = none) (err : Errorf) : Sets f (.distribution value) (f, some err)
  | other (flag : OtherFlag) : Sets f (.other flag) ({ f with cfg := f.cfg.setOther flag }, none)

private theorem sets (f : Flags) (setting : Setting) : f.Sets setting (f.set u setting) := by
  cases setting with
  | axis axis value =>
    rw [Flags.set, setAxis]
    cases parsed : atoi value with
    | none =>
      refine .noInteger (fun v spells => ?_) _
      simp [atoi_eq_some_iff.2 spells] at parsed
    | some v => exact .axis (atoi_eq_some_iff.1 parsed)
  | distribution value =>
    rw [Flags.set, setDistribution]
    cases parsed : u.parseDistribution value with
    | none =>
      refine .invalid (fun d names => ?_) _
      simp [u.parseDistribution_eq_some_iff.2 names] at parsed
    | some d =>
      dsimp only
      split
      case h_1 axis cursor => exact .distribution (u.parseDistribution_eq_some_iff.1 parsed) cursor
      case h_2 cursor => exact .unbound cursor _
  | other flag => exact .other flag

/-- A setting is rejected and changes nothing, or accepted and followed. -/
theorem Follows.set (follows : f.Follows settings) (setting : Setting) :
    (Rejected settings setting ∧ ∃ err, f.set u setting = (f, some err)) ∨
      (¬Rejected settings setting ∧ ∃ f', f.set u setting = (f', none) ∧ f'.Follows (settings ++ [setting])) := by
  have sets := f.sets u setting
  revert sets
  generalize f.set u setting = result
  intro sets
  cases sets with
  | noInteger noInteger err => exact .inl ⟨.axis noInteger, err, rfl⟩
  | invalid nameless err => exact .inl ⟨.invalid nameless, err, rfl⟩
  | unbound cursor err => exact .inl ⟨.unbound (follows.cursor.symm.trans cursor), err, rfl⟩
  | @axis axis value v spells =>
    refine .inr ⟨fun rejected => ?_, _, rfl, ?_, fun a => ?_⟩
    · cases rejected with
      | axis noInteger => exact noInteger v spells
    · rw [nearestAxis_concat]
      rfl
    · rw [Config.dist_setAxis]
      exact (follows.bound a).concat nofun
  | @distribution value d axis names cursor =>
    have nearest := follows.cursor.symm.trans cursor
    refine .inr ⟨fun rejected => ?_, _, rfl, ?_, fun a => ?_⟩
    · cases rejected with
      | invalid nameless => exact nameless d names
      | unbound noAxis => cases noAxis.symm.trans nearest
    · rw [nearestAxis_concat]
      exact follows.cursor
    · rw [Config.dist_setDist]
      split
      case isTrue same => exact .rebound (same ▸ nearest) names
      case isFalse other =>
        exact (follows.bound a).concat fun _ _ isAxis => other (Option.some.inj (isAxis.symm.trans nearest))
  | other flag =>
    refine .inr ⟨nofun, _, rfl, ?_, fun a => ?_⟩
    · rw [nearestAxis_concat]
      exact follows.cursor
    · rw [Config.dist_setOther]
      exact (follows.bound a).concat nofun

/-- A setting that is rejected changes nothing. -/
private theorem eq_of_rejected (f : Flags) (setting : Setting) (failed : (f.set u setting).2 ≠ none) :
    (f.set u setting).1 = f := by
  have sets := f.sets u setting
  revert sets failed
  generalize f.set u setting = result
  intro failed sets
  cases sets with
  | noInteger | invalid | unbound => rfl
  | axis | distribution | other => exact absurd rfl failed

/-- The settings up to the first one that is rejected are followed. -/
theorem Follows.parse {before : List Setting} (follows : f.Follows before) (settings : List Setting) :
    ∃ done rest, settings = done ++ rest ∧ (f.parse u settings).1.Follows (before ++ done) ∧
      f.parse u done = ((f.parse u settings).1, none) ∧
      (∀ i setting, done[i]? = some setting → ¬Rejected (before ++ done.take i) setting) ∧
      (rest = [] ∧ (f.parse u settings).2 = none ∨
        ∃ setting later, rest = setting :: later ∧ Rejected (before ++ done) setting ∧
          (f.parse u settings).2 ≠ none) := by
  induction settings generalizing f before with
  | nil => exact ⟨[], [], rfl, by rw [List.append_nil]; exact follows, rfl, by simp, .inl ⟨rfl, rfl⟩⟩
  | cons setting settings ih =>
    rcases follows.set u setting with ⟨rejected, err, failed⟩ | ⟨accepted, f', ok, follows'⟩
    · have stopped : f.parse u (setting :: settings) = (f, some err) := by simp only [Flags.parse, failed]
      rw [stopped]
      exact ⟨[], setting :: settings, rfl, by simpa using follows, rfl, by simp,
        .inr ⟨setting, settings, rfl, by simpa using rejected, nofun⟩⟩
    · have continued (more : List Setting) : f.parse u (setting :: more) = f'.parse u more := by
        simp only [Flags.parse, ok]
      obtain ⟨done, rest, rfl, followed, parsed, fine, outcome⟩ := ih follows'
      rw [List.append_assoc, List.singleton_append] at followed outcome
      refine ⟨setting :: done, rest, rfl, by rw [continued]; exact followed, by rw [continued, continued, parsed],
        fun i other found => ?_, by rw [continued]; exact outcome⟩
      cases i with
      | zero =>
        obtain rfl : setting = other := by simpa using found
        simpa using accepted
      | succ i => simpa using fine i other (by simpa using found)

end Flags

/-- The flags follow the settings up to the first one that is rejected, and stop there; with none to reject they
follow all of them. A setting that is rejected leaves everything as it is. -/
theorem distribution_binds (u : Unicode) (settings : List Setting) :
    ∃ done rest, settings = done ++ rest ∧
      (∀ i setting, done[i]? = some setting → ¬Rejected (done.take i) setting) ∧
      (rest = [] ∧ (({} : Flags).parse u settings).2 = none ∨
        ∃ setting later, rest = setting :: later ∧ Rejected done setting ∧ (({} : Flags).parse u settings).2 ≠ none) ∧
      ({} : Flags).parse u done = ((({} : Flags).parse u settings).1, none) ∧
      (({} : Flags).parse u settings).1.last = nearestAxis done ∧
      (∀ a, Binds done a ((({} : Flags).parse u settings).1.cfg.dist a)) ∧
      ∀ (f : Flags) (setting : Setting), (f.set u setting).2 ≠ none → (f.set u setting).1 = f := by
  obtain ⟨done, rest, split, followed, parsed, fine, outcome⟩ := Flags.Follows.init.parse u settings
  exact ⟨done, rest, split, fine, outcome, parsed, followed.cursor, followed.bound, fun f s => f.eq_of_rejected u s⟩

/-- The table that lowers nothing but ASCII. -/
def Unicode.plain : Unicode where
  toLower := Char.toLower
  ascii _ _ := rfl
  others c beyond lowered := by
    have same : c.toLower = c := by
      refine dif_neg fun upper => ?_
      have bounded : c.toNat ≤ 90 := UInt32.le_iff_toNat_le.1 upper.2
      omega
    rw [same] at lowered
    have letters : c = 'e' ∨ c = 'v' ∨ c = 'n' ∨ c = 'u' := by simpa using lowered
    rcases letters with rfl | rfl | rfl | rfl <;> exact absurd beyond (by decide)

/-- Two distributions, each bound to the axis before it, and a count that is no number. -/
def boundTwice : List Setting :=
  [.axis .conns "2", .distribution "UNEVEN", .axis .channels "+4", .other (.msgs 5), .distribution "even",
    .axis .conns "two"]

theorem distribution_binds_twice :
    (({} : Flags).parse .plain boundTwice).1.cfg.connsDist = .uneven ∧
      (({} : Flags).parse .plain boundTwice).2 ≠ none ∧
      ∃ done rest, boundTwice = done ++ rest ∧ (({} : Flags).parse .plain boundTwice).1.last = nearestAxis done ∧
        ∀ a, Binds done a ((({} : Flags).parse .plain boundTwice).1.cfg.dist a) := by
  obtain ⟨done, rest, split, -, -, -, cursor, bound, -⟩ := distribution_binds .plain boundTwice
  exact ⟨by decide +kernel, by decide +kernel, done, rest, split, cursor, bound⟩

end GolangMQ.Bench
