import Mathlib.Algebra.Order.Ring.Int
import Mathlib.Tactic.Common
import SourceChange.Proofs.Except
import SourceChange.Settings.Basic

/-!
The bounds of settings, and what their check makes of them.

The check refuses settings that are out of bounds with one exception: a time that is no number is neither
positive nor at most zero.
-/

namespace SourceChange

/-- Whether a fault is reported as one of the settings. The others break off the reading of a value. -/
def SettingsFault.isReported : SettingsFault → Bool
  | overflow | tooLarge | notText _ | badScalar _ | wrongType _ | circularPath _ => false
  | _ => true

namespace Seconds

/-- Times after zero. -/
def IsPositive : Seconds → Prop
  | whole n => 0 < n
  | fraction (.finite negative m _) => negative = false ∧ 0 < m
  | fraction (.infinite negative) => negative = false
  | fraction .nan => False

theorem signedDigits_times_pos_iff (negative : Bool) (m k : Nat) :
    0 < Binary64.signedDigits negative m * Binary64.twoPow k ↔ negative = false ∧ 0 < m := by
  have hpow : (0 : Int) < Binary64.twoPow k := Int.natCast_pos.mpr (Nat.two_pow_pos k)
  rw [mul_pos_iff_of_pos_right hpow]
  cases negative with
  | false => simp [Binary64.signedDigits]
  | true => simp [Binary64.signedDigits]

theorem fraction_atMostZero_eq_false_iff (x : Binary64) :
    (fraction x).atMostZero = false ↔ (fraction x).IsPositive ∨ x = .nan := by
  cases x with
  | nan => exact ⟨fun _ => .inr rfl, fun _ => rfl⟩
  | infinite negative =>
    cases negative <;> simp [atMostZero, IsPositive, Binary64.atMostZero, Binary64.lt, Binary64.zero]
  | finite negative m e =>
    rw [or_iff_left Binary64.noConfusion, IsPositive, ← signedDigits_times_pos_iff negative m
      (e - min (-1074) e).toNat]
    simp [atMostZero, Binary64.atMostZero, Binary64.lt, Binary64.zero, Binary64.signedDigits]

theorem atMostZero_eq_false_iff (t : Seconds) :
    t.atMostZero = false ↔ t.IsPositive ∨ t = fraction .nan := by
  cases t with
  | whole n => simp [atMostZero, IsPositive]
  | fraction x => rw [fraction_atMostZero_eq_false_iff, fraction.injEq]

end Seconds

namespace Settings

/-- Settings within their bounds, the time for a file apart. -/
structure Bounded (s : Settings) : Prop where
  level : s.logLevel ∈ logLevels
  workers : 1 ≤ s.maxWorkers ∧ s.maxWorkers ≤ 64
  counts : ∀ c ∈ s.counts, 1 ≤ c.2

/-- Refuses a count that is not positive. -/
def checkCount (c : String × Int) : Except SettingsFault Unit :=
  if c.2 < 1 then .error (.tooSmall c.1 c.2) else .ok ()

theorem checkCount_eq_ok_iff {c : String × Int} : checkCount c = .ok () ↔ 1 ≤ c.2 := by
  unfold checkCount
  rw [← Int.not_lt]
  split
  case isTrue h => exact iff_of_false nofun (not_not.mpr h)
  case isFalse h => exact iff_of_true rfl h

theorem validate_eq (s : Settings) :
    s.validate =
      if s.logLevel ∉ logLevels then .error (.badLogLevel s.logLevel)
      else if ¬ (1 ≤ s.maxWorkers ∧ s.maxWorkers ≤ 64) then .error (.badWorkers s.maxWorkers)
      else if s.fileTimeout.atMostZero = true then .error (.badTimeout s.fileTimeout)
      else s.counts.forM checkCount >>= fun _ => .ok s := by
  unfold validate
  dsimp only
  by_cases hlevel : s.logLevel ∈ logLevels
  · by_cases hworkers : 1 ≤ s.maxWorkers ∧ s.maxWorkers ≤ 64
    · by_cases htime : s.fileTimeout.atMostZero = true
      · rw [if_neg (by simpa using hlevel), if_neg (by simpa using hworkers), if_pos htime]
        simp only [hlevel, hworkers, htime]
        rfl
      · rw [if_neg (by simpa using hlevel), if_neg (by simpa using hworkers), if_neg htime]
        simp only [hlevel, hworkers, htime]
        rfl
    · rw [if_neg (by simpa using hlevel), if_pos (by simp; omega)]
      simp only [hlevel, hworkers]
      rfl
  · rw [if_pos (by simpa using hlevel)]
    simp only [hlevel]
    rfl

/-- The check leaves settings as they are. -/
theorem validate_eq_ok_iff {s b : Settings} :
    s.validate = .ok b ↔
      b = s ∧ s.Bounded ∧ (s.fileTimeout.IsPositive ∨ s.fileTimeout = .fraction .nan) := by
  rw [validate_eq]
  split
  case isTrue h => exact ⟨nofun, fun hb => absurd hb.2.1.level h⟩
  split
  case isTrue h => exact ⟨nofun, fun hb => absurd hb.2.1.workers h⟩
  split
  case isTrue h =>
    refine ⟨nofun, fun hb => ?_⟩
    rw [← Seconds.atMostZero_eq_false_iff, h] at hb
    cases hb.2.2
  case isFalse hlevel hworkers htime =>
  constructor
  · intro h
    obtain ⟨⟨⟩, hcounts, h⟩ := bind_eq_ok_iff.mp h
    cases h
    have hcounts (c : String × Int) (hc : c ∈ s.counts) :=
      checkCount_eq_ok_iff.mp (forM_eq_ok_iff.mp hcounts c hc)
    exact ⟨rfl, ⟨not_not.mp hlevel, not_not.mp hworkers, hcounts⟩,
      (Seconds.atMostZero_eq_false_iff _).mp (Bool.eq_false_of_not_eq_true htime)⟩
  · rintro ⟨rfl, hb, -⟩
    rw [forM_eq_ok_iff.mpr fun c hc => checkCount_eq_ok_iff.mpr (hb.counts c hc)]
    rfl

/-- What the check finds is reported. -/
theorem isReported_of_validate_eq_error {s : Settings} {fault : SettingsFault}
    (h : s.validate = .error fault) : fault.isReported = true := by
  rw [validate_eq] at h
  split at h
  · cases h
    rfl
  split at h
  · cases h
    rfl
  split at h
  · cases h
    rfl
  obtain h | ⟨-, -, h⟩ := bind_eq_error_iff.mp h
  · obtain ⟨c, -, hc⟩ := exists_of_forM_eq_error h
    unfold checkCount at hc
    split at hc <;> cases hc
    rfl
  · cases h

end Settings

end SourceChange
