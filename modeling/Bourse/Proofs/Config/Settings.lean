import Bourse.Proofs.Config.SeedBalances
import Bourse.Proofs.Store.Regular
import Bourse.Proofs.Wire.Snapshots
import Mathlib.Logic.Function.Basic

/-!
# Every environment configures the exchange

Whatever the variables hold, the configuration that comes out is usable: its intervals and bounds are
above zero, its fees are fractions, and the texts in it are trimmed. This holds of the standard
configuration, and each setting that is read has to pass a check of its own.

A setting is read from one variable and from no other, and no two settings share a variable. So a
change of one variable changes at most the one setting that it holds, and each setting can be given
any value that passes its check.
-/

namespace Bourse

/-! ## Usable configurations -/

/-- At least zero and below one. -/
def Decimal.IsFraction (a : Decimal) : Prop := 0 ≤ a.toRat ∧ a.toRat < 1

theorem Decimal.isFraction_iff {a : Decimal} :
    a.IsFraction ↔ (!a.isNeg && decide (a < one)) = true := by
  have hone : one.toRat = 1 := toRat_ofWord 1
  rw [Bool.and_eq_true, decide_eq_true_eq, lt_iff, hone, Bool.not_eq_true', ← Bool.not_eq_true,
    isNeg_iff, not_lt]
  exact Iff.rfl

theorem FeeSchedule.fractions_iff {fees : FeeSchedule} :
    fees.Fractions ↔ fees.makerRate.IsFraction ∧ fees.takerRate.IsFraction := by
  constructor
  · intro h
    exact ⟨⟨h.nonneg .maker, h.lt_one .maker⟩, h.nonneg .taker, h.lt_one .taker⟩
  · rintro ⟨hmaker, htaker⟩
    have hrate : ∀ role, (fees.rateFor role).IsFraction := by
      intro role
      cases role with
      | taker => exact htaker
      | maker => exact hmaker
      | mixed => exact hmaker
    exact ⟨fun role => (hrate role).1, fun role => (hrate role).2⟩

namespace Config

/-- The exchange can run with these settings. -/
structure Usable (c : Config) : Prop where
  matchInterval_pos : 0 < c.matchInterval
  maxMatchIterations_pos : 0 < c.maxMatchIterations
  fees : c.fees.Fractions
  ledgerTimeout_pos : 0 < c.ledgerTimeout
  settlementMaxAttempts_pos : 0 < c.settlementMaxAttempts
  settlementBatch_pos : 0 < c.settlementBatch
  snapshotPath : ∀ path ∈ c.snapshotPath, path ≠ "" ∧ Text.TrimsTo path.toList path.toList
  seedBalances : ∀ b ∈ c.seedBalances, b.WellFormed

theorem standard_usable : standard.Usable where
  matchInterval_pos := by decide
  maxMatchIterations_pos := by decide
  fees := FeeSchedule.standard_fractions
  ledgerTimeout_pos := by decide
  settlementMaxAttempts_pos := by decide
  settlementBatch_pos := by decide
  snapshotPath := by simp [standard]
  seedBalances := by simp [standard]

/-- The words of a type are the numbers below a bound. -/
structure WordsBelow {W : Type} [LT W] [OfNat W 0] (bound : ℕ) (ofNat : ℕ → W) (toNat : W → ℕ) :
    Prop where
  toNat_ofNat {n : ℕ} : n < bound → toNat (ofNat n) = n
  ofNat_toNat (w : W) : ofNat (toNat w) = w
  toNat_lt (w : W) : toNat w < bound
  pos_iff {w : W} : 0 < w ↔ 0 < toNat w

theorem words64 : WordsBelow UInt64.size UInt64.ofNat UInt64.toNat where
  toNat_ofNat := UInt64.toNat_ofNat_of_lt'
  ofNat_toNat := @UInt64.ofNat_toNat
  toNat_lt := UInt64.toNat_lt
  pos_iff := UInt64.lt_iff_toNat_lt

theorem words32 : WordsBelow UInt32.size UInt32.ofNat UInt32.toNat where
  toNat_ofNat := UInt32.toNat_ofNat_of_lt'
  ofNat_toNat := @UInt32.ofNat_toNat
  toNat_lt := UInt32.toNat_lt
  pos_iff := UInt32.lt_iff_toNat_lt

section Readers

variable {raw : Option String} {bound n : ℕ} {rate : Decimal} {path : String}
variable {W : Type} [LT W] [OfNat W 0] {ofNat : ℕ → W} {toNat : W → ℕ} {w : W}

/-- A setting is what is read for it or, if nothing is, what it is by default. -/
theorem holds_getD {α : Type} {p : α → Prop} {read : Option α} {usual : α}
    (hread : ∀ a ∈ read, p a) (husual : p usual) : p (read.getD usual) := by
  cases read with
  | none => exact husual
  | some a => exact hread a rfl

theorem bounds_of_mem_positive? (h : n ∈ positive? bound raw) : 0 < n ∧ n < bound := by
  obtain ⟨text, -, h⟩ := Option.bind_eq_some_iff.1 h
  obtain ⟨m, hm, h⟩ := Option.bind_eq_some_iff.1 h
  split at h
  · rename_i hpos
    obtain rfl := Option.some.inj h
    exact ⟨hpos, Text.whole?_lt hm⟩
  · cases h

theorem WordsBelow.pos_of_mem (hwords : WordsBelow bound ofNat toNat)
    (h : w ∈ (positive? bound raw).map ofNat) : 0 < w := by
  obtain ⟨m, hm, rfl⟩ := Option.mem_map.1 h
  obtain ⟨hpos, hlt⟩ := bounds_of_mem_positive? hm
  rw [hwords.pos_iff, hwords.toNat_ofNat hlt]
  exact hpos

theorem isFraction_of_mem_rate? (h : rate ∈ rate? raw) : rate.IsFraction := by
  obtain ⟨text, -, h⟩ := Option.bind_eq_some_iff.1 h
  obtain ⟨read, -, h⟩ := Option.bind_eq_some_iff.1 h
  split at h
  · rename_i hrange
    obtain rfl := Option.some.inj h
    exact Decimal.isFraction_iff.2 hrange
  · cases h

theorem trimmed_of_mem_path? (h : path ∈ path? raw) :
    path ≠ "" ∧ Text.TrimsTo path.toList path.toList := by
  obtain ⟨hpath, hne⟩ := Option.mem_filter_iff.1 h
  obtain ⟨text, -, rfl⟩ := Option.mem_map.1 hpath
  refine ⟨fun hempty => ?_, ?_⟩
  · rw [hempty] at hne
    exact absurd hne (by decide)
  · rw [Text.trimmed, String.toList_ofList]
    exact (Text.trimsTo_trim _).core_self

end Readers

theorem usable_ofLookup (lookup : String → Option String) : (ofLookup lookup).Usable := by
  have hstandard := standard_usable
  obtain ⟨hmaker, htaker⟩ := FeeSchedule.fractions_iff.1 hstandard.fees
  have hbalances : ∀ balances ∈ (lookup "SEED_BALANCES").map SeedBalance.parse,
      ∀ b ∈ balances, SeedBalance.WellFormed b := by
    intro balances h
    obtain ⟨text, -, rfl⟩ := Option.mem_map.1 h
    exact fun b hb => SeedBalance.wellFormed_of_mem_parse hb
  exact {
    matchInterval_pos := holds_getD (fun _ => words64.pos_of_mem) hstandard.matchInterval_pos
    maxMatchIterations_pos := holds_getD (fun _ => words64.pos_of_mem) hstandard.maxMatchIterations_pos
    fees := FeeSchedule.fractions_iff.2 ⟨holds_getD (fun _ => isFraction_of_mem_rate?) hmaker,
      holds_getD (fun _ => isFraction_of_mem_rate?) htaker⟩
    ledgerTimeout_pos := holds_getD (fun _ => words64.pos_of_mem) hstandard.ledgerTimeout_pos
    settlementMaxAttempts_pos :=
      holds_getD (fun _ => words32.pos_of_mem) hstandard.settlementMaxAttempts_pos
    settlementBatch_pos := holds_getD (fun _ => words64.pos_of_mem) hstandard.settlementBatch_pos
    snapshotPath := fun _ => trimmed_of_mem_path?
    seedBalances := holds_getD hbalances hstandard.seedBalances }

/-! ## One variable for each setting -/

/-- The settings of the exchange. The two rates of the fee schedule are settings of their own. -/
inductive Setting where
  | matchInterval
  | maxMatchIterations
  | makerRate
  | takerRate
  | allowSelfTrade
  | ledgerTimeout
  | settlementMaxAttempts
  | settlementBatch
  | httpPort
  | snapshotPath
  | seedBalances

namespace Setting

/-- The name of the variable that holds a setting. -/
def variableName : Setting → String
  | .matchInterval => "MATCH_INTERVAL_MS"
  | .maxMatchIterations => "MAX_MATCH_ITERATIONS"
  | .makerRate => "MAKER_FEE_RATE"
  | .takerRate => "TAKER_FEE_RATE"
  | .allowSelfTrade => "ALLOW_SELF_TRADE"
  | .ledgerTimeout => "LEDGER_TIMEOUT_MS"
  | .settlementMaxAttempts => "SETTLEMENT_MAX_ATTEMPTS"
  | .settlementBatch => "SETTLEMENT_BATCH"
  | .httpPort => "PORT"
  | .snapshotPath => "SNAPSHOT_PATH"
  | .seedBalances => "SEED_BALANCES"

/-- What a setting is. -/
def Value : Setting → Type
  | .matchInterval => UInt64
  | .maxMatchIterations => UInt64
  | .makerRate => Decimal
  | .takerRate => Decimal
  | .allowSelfTrade => Bool
  | .ledgerTimeout => UInt64
  | .settlementMaxAttempts => UInt32
  | .settlementBatch => UInt64
  | .httpPort => UInt16
  | .snapshotPath => Option String
  | .seedBalances => List SeedBalance

theorem variableName_mem (s : Setting) : s.variableName ∈ variableNames := by
  cases s <;> decide

/-- No two settings share a variable. -/
theorem variableName_injective : Function.Injective variableName := by
  intro s t h
  -- One pair of settings at a time: they are the same, or their variables have different names.
  cases s <;> cases t <;> first | rfl | exact absurd h (by decide)

end Setting

variable {c d : Config} {s t : Setting} {lookup lookup' : String → Option String}

/-- A setting of a configuration. -/
def get (c : Config) : (s : Setting) → s.Value
  | .matchInterval => c.matchInterval
  | .maxMatchIterations => c.maxMatchIterations
  | .makerRate => c.fees.makerRate
  | .takerRate => c.fees.takerRate
  | .allowSelfTrade => c.allowSelfTrade
  | .ledgerTimeout => c.ledgerTimeout
  | .settlementMaxAttempts => c.settlementMaxAttempts
  | .settlementBatch => c.settlementBatch
  | .httpPort => c.httpPort
  | .snapshotPath => c.snapshotPath
  | .seedBalances => c.seedBalances

/-- The configuration with another value of one setting. -/
def set (c : Config) : (s : Setting) → s.Value → Config
  | .matchInterval, ms => { c with matchInterval := ms }
  | .maxMatchIterations, n => { c with maxMatchIterations := n }
  | .makerRate, rate => { c with fees := { c.fees with makerRate := rate } }
  | .takerRate, rate => { c with fees := { c.fees with takerRate := rate } }
  | .allowSelfTrade, on => { c with allowSelfTrade := on }
  | .ledgerTimeout, ms => { c with ledgerTimeout := ms }
  | .settlementMaxAttempts, n => { c with settlementMaxAttempts := n }
  | .settlementBatch, n => { c with settlementBatch := n }
  | .httpPort, port => { c with httpPort := port }
  | .snapshotPath, path => { c with snapshotPath := path }
  | .seedBalances, balances => { c with seedBalances := balances }

/-- A configuration is told by its settings. -/
theorem eq_of_get_eq (h : ∀ s, c.get s = d.get s) : c = d := by
  have hfees : c.fees = d.fees := by
    rw [show c.fees = ⟨c.get .makerRate, c.get .takerRate⟩ from rfl, h, h]
    rfl
  cases c
  cases d
  simp only [Config.mk.injEq]
  exact ⟨h .matchInterval, h .maxMatchIterations, hfees, h .allowSelfTrade, h .ledgerTimeout,
    h .settlementMaxAttempts, h .settlementBatch, h .httpPort, h .snapshotPath, h .seedBalances⟩

theorem get_set (c : Config) (s : Setting) (v : s.Value) : (c.set s v).get s = v := by
  cases s <;> rfl

theorem get_set_of_ne (c : Config) (v : s.Value) (h : t ≠ s) : (c.set s v).get t = c.get t := by
  -- Two settings are different fields, but for the pairs that `h` leaves out.
  cases s <;> cases t <;> first | rfl | exact absurd rfl h

/-- A setting is read from its variable: it is as if all variables held what that one does. -/
theorem get_ofLookup (lookup : String → Option String) (s : Setting) :
    (ofLookup lookup).get s = (ofLookup fun _ => lookup s.variableName).get s := by
  cases s <;> rfl

theorem get_ofLookup_congr (h : lookup s.variableName = lookup' s.variableName) :
    (ofLookup lookup).get s = (ofLookup lookup').get s := by
  rw [get_ofLookup lookup, get_ofLookup lookup', h]

/-- Another value of one variable is another value of one setting. -/
theorem ofLookup_eq_set (h : ∀ name, name ≠ s.variableName → lookup' name = lookup name) :
    ofLookup lookup' = (ofLookup lookup).set s ((ofLookup lookup').get s) := by
  refine eq_of_get_eq fun t => ?_
  by_cases hts : t = s
  · rw [hts, get_set]
  · rw [get_set_of_ne _ _ hts]
    exact get_ofLookup_congr (h _ fun hname => hts (Setting.variableName_injective hname))

theorem ofLookup_congr (h : ∀ name ∈ variableNames, lookup' name = lookup name) :
    ofLookup lookup' = ofLookup lookup :=
  eq_of_get_eq fun s => get_ofLookup_congr (h _ s.variableName_mem)

/-! ## Settings are read as they are written -/

/-- The text of a setting, for its variable. -/
def Setting.text : (s : Setting) → s.Value → Option String
  | .matchInterval, ms => some (toString ms.toNat)
  | .maxMatchIterations, n => some (toString n.toNat)
  | .makerRate, rate => some rate.toText
  | .takerRate, rate => some rate.toText
  | .allowSelfTrade, on => some (bif on then "true" else "false")
  | .ledgerTimeout, ms => some (toString ms.toNat)
  | .settlementMaxAttempts, n => some (toString n.toNat)
  | .settlementBatch, n => some (toString n.toNat)
  | .httpPort, port => some (toString port.toNat)
  | .snapshotPath, path => path
  | .seedBalances, balances => some (",".intercalate (balances.map SeedBalance.toEntry))

section Written

variable {n bound : ℕ} {rate : Decimal}
variable {W : Type} [LT W] [OfNat W 0] {ofNat : ℕ → W} {toNat : W → ℕ} {w usual : W}

/-- No rate is a zero with a minus sign, which no text in plain notation is read as. -/
structure PlainRates (c : Config) : Prop where
  makerRate : ¬c.fees.makerRate.IsNegativeZero
  takerRate : ¬c.fees.takerRate.IsNegativeZero

theorem whole?_toString (hn : n < bound) :
    Text.whole? bound (Text.trim (toString n).toList) = some n := by
  have hdigits := Text.allDigits_toDigits n
  rw [Nat.toString_eq_repr, Nat.toList_repr,
    Text.trim_of_not_blank fun c hc => Text.isBlank_of_isDigit (hdigits c hc)]
  exact Text.whole?_toDigits hn

theorem positive?_toString (hpos : 0 < n) (hn : n < bound) :
    positive? bound (some (toString n)) = some n := by
  simp only [positive?, Option.bind_eq_bind, Option.bind_some, whole?_toString hn]
  exact if_pos hpos

theorem rate_toText {d : Decimal} (hrate : rate.IsFraction) (hplain : ¬rate.IsNegativeZero) :
    (rate? (some rate.toText)).getD d = rate := by
  have htrimmed : Text.trimmed rate.toText = rate.toText := by
    rw [Text.trimmed, Text.trim_of_not_blank fun c hc => (SeedBalance.isPlain_amount c hc).1,
      String.ofList_toList]
  have hread : rate? (some rate.toText) = some rate := by
    simp only [rate?, Option.bind_eq_bind, Option.bind_some, htrimmed, Decimal.ofText?_toText,
      Decimal.unsignedZero_eq_self hplain]
    exact if_pos (Decimal.isFraction_iff.1 hrate)
  rw [hread, Option.getD_some]

theorem WordsBelow.getD_toString (hwords : WordsBelow bound ofNat toNat) (hpos : 0 < w) :
    ((positive? bound (some (toString (toNat w)))).map ofNat).getD usual = w := by
  rw [positive?_toString (hwords.pos_iff.1 hpos) (hwords.toNat_lt w)]
  exact hwords.ofNat_toNat w

theorem flag_text (on : Bool) : flag (bif on then "true" else "false") = on := by
  cases on <;> decide +kernel

theorem path?_of_trimmed {path : Option String}
    (h : ∀ p ∈ path, p ≠ "" ∧ Text.TrimsTo p.toList p.toList) : path? path = path := by
  cases path with
  | none => rfl
  | some p =>
    obtain ⟨hne, htrims⟩ := h p rfl
    have htrimmed : Text.trimmed p = p := by
      rw [Text.trimmed, ← Text.trimsTo_iff.1 htrims, String.ofList_toList]
    have hempty : p.isEmpty = false := by
      rw [← Bool.not_eq_true, String.isEmpty_iff]
      exact hne
    rw [path?, Option.map_some, htrimmed]
    exact Option.filter_eq_some_iff.2 ⟨rfl, by rw [hempty]; rfl⟩

/-- A setting that passes its check is read as it is written. -/
theorem get_ofLookup_text (h : c.Usable) (hplain : c.PlainRates) (s : Setting) :
    (ofLookup fun _ => s.text (c.get s)).get s = c.get s := by
  obtain ⟨hmaker, htaker⟩ := FeeSchedule.fractions_iff.1 h.fees
  cases s <;> dsimp only [get, ofLookup, Setting.text]
  case matchInterval => exact words64.getD_toString h.matchInterval_pos
  case maxMatchIterations => exact words64.getD_toString h.maxMatchIterations_pos
  case makerRate => exact rate_toText hmaker hplain.makerRate
  case takerRate => exact rate_toText htaker hplain.takerRate
  case allowSelfTrade => exact flag_text c.allowSelfTrade
  case ledgerTimeout => exact words64.getD_toString h.ledgerTimeout_pos
  case settlementMaxAttempts => exact words32.getD_toString h.settlementMaxAttempts_pos
  case settlementBatch => exact words64.getD_toString h.settlementBatch_pos
  case httpPort =>
    rw [Option.bind_some, whole?_toString c.httpPort.toNat_lt]
    exact UInt16.ofNat_toNat
  case snapshotPath => exact path?_of_trimmed h.snapshotPath
  case seedBalances => exact SeedBalance.parse_toEntries h.seedBalances

/-- Some environment gives the configuration: the one in which each setting is written in its
variable. -/
theorem exists_ofLookup (h : c.Usable) (hplain : c.PlainRates) : ∃ lookup, ofLookup lookup = c := by
  let texts : String → Option String :=
    Function.extend Setting.variableName (fun s => s.text (c.get s)) fun _ => none
  refine ⟨texts, eq_of_get_eq fun s => ?_⟩
  have htext : texts s.variableName = s.text (c.get s) :=
    Setting.variableName_injective.extend_apply _ _ s
  rw [get_ofLookup, htext]
  exact get_ofLookup_text h hplain s

end Written

/-- Whatever the variables of its environment hold, the exchange gets a usable configuration. A
change of the variable of one setting changes no other setting, and a change of no such variable
changes none. Each usable configuration can be had, as long as no rate is a negative zero. -/
theorem usable_and_isolated :
    (∀ lookup, (ofLookup lookup).Usable) ∧
    (∀ lookup lookup' (s : Setting),
      (∀ name, name ≠ s.variableName → lookup' name = lookup name) →
        ∃ v, ofLookup lookup' = (ofLookup lookup).set s v) ∧
    (∀ lookup lookup', (∀ name ∈ variableNames, lookup' name = lookup name) →
      ofLookup lookup' = ofLookup lookup) ∧
    ∀ c : Config, c.Usable → c.PlainRates → ∃ lookup, ofLookup lookup = c :=
  ⟨usable_ofLookup, fun _ _ _ h => ⟨_, ofLookup_eq_set h⟩, fun _ _ => ofLookup_congr,
    fun _ => exists_ofLookup⟩

/-- An environment with little that can be read in it but, perhaps, the rate of makers. -/
def blankEnvironment (makerRate : String) : String → Option String
  | "MAKER_FEE_RATE" => some makerRate
  | "SEED_BALANCES" => some "1:usd:5,x"
  | _ => some " "

theorem usable_and_isolated_halfRate :
    (∀ name, name ≠ Setting.makerRate.variableName →
      blankEnvironment "0.5" name = blankEnvironment "1" name) ∧
    (∃ v, ofLookup (blankEnvironment "0.5") =
      (ofLookup (blankEnvironment "1")).set .makerRate v) ∧
    (ofLookup (blankEnvironment "1")).fees.makerRate = FeeSchedule.standard.makerRate ∧
    (ofLookup (blankEnvironment "0.5")).fees.makerRate.toText = "0.5" ∧
    standard.Usable ∧ standard.PlainRates ∧ ∃ lookup, ofLookup lookup = standard := by
  have hsame : ∀ name, name ≠ Setting.makerRate.variableName →
      blankEnvironment "0.5" name = blankEnvironment "1" name := by
    intro name hname
    unfold blankEnvironment
    split
    · exact absurd rfl hname
    · rfl
    · rfl
  have hplain : standard.PlainRates := by
    constructor <;> exact fun h => absurd h.1 (by decide)
  exact ⟨hsame, usable_and_isolated.2.1 _ _ .makerRate hsame, by decide +kernel, by decide +kernel,
    standard_usable, hplain, usable_and_isolated.2.2.2 _ standard_usable hplain⟩

end Config

end Bourse
