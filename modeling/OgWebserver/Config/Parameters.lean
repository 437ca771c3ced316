import Mathlib.Analysis.SpecialFunctions.Log.Base
import OgWebserver.Config.State
import OgWebserver.Config.Words

/-!
# FastCGI parameters

The actions for `fastcgi_param`, which check their argument against a fixed list.  A
number is first written to memory of its own, whose size comes from the logarithm of
the number.
-/

namespace OgWebserver.Config

open Text

/-- An entry of `fastCgiParams`. -/
structure Param where
  key : String
  paramName : String

def fastCgiParams : List Param :=
  [ ⟨"QUERY_STRING", "$query_string"⟩,
    ⟨"REQUEST_METHOD", "$request_method"⟩,
    ⟨"CONTENT_TYPE", "$content_type"⟩,
    ⟨"CONTENT_LENGTH", "$content_length"⟩,
    ⟨"SCRIPT_FILENAME", "$document_root$fastcgi_script_name"⟩,
    ⟨"SCRIPT_NAME", "$fastcgi_script_name"⟩,
    ⟨"PATH_INFO", "$fastcgi_path_info"⟩,
    ⟨"PATH_TRANSLATED", "$document_root$fastcgi_path_info"⟩,
    ⟨"REQUEST_URI", "$request_uri"⟩,
    ⟨"DOCUMENT_URI", "$document_uri"⟩,
    ⟨"DOCUMENT_ROOT", "$document_root"⟩,
    ⟨"SERVER_PROTOCOL", "$server_protocol"⟩,
    ⟨"GATEWAY_INTERFACE", "CGI/1.1"⟩,
    ⟨"SERVER_SOFTWARE", "ogws/$version"⟩,
    ⟨"REMOTE_ADDR", "$remote_addr"⟩,
    ⟨"REMOTE_PORT", "$remote_port"⟩,
    ⟨"SERVER_ADDR", "$server_addr"⟩,
    ⟨"SERVER_PORT", "$server_port"⟩,
    ⟨"SERVER_NAME", "$server_name"⟩,
    ⟨"HTTPS", "$https"⟩,
    ⟨"REDIRECT_STATUS", "200"⟩ ]

def linearSearch (params : List Param) (key : Bytes) : Option Param :=
  params.find? fun param => bytes param.key == key

/-- `checkParameter`: the message it prints, if any. -/
def checkParameter (key value : Bytes) : Option Bytes :=
  match linearSearch fastCgiParams key with
  | some param =>
      if bytes param.paramName == value then none
      else
        some (bytes "Attempt to change default fastcgi_param " ++ key ++ bytes " to " ++ value ++
          bytes ", not supported, ignored\n")
  | none => some (bytes "Unregognized fastcgi_param " ++ key ++ bytes ", ignored\n")

/-- Write a string, and its terminating zero, to memory of the given size. -/
def store (size : Nat) (text : Bytes) : Except Halt Bytes :=
  if text.length + 1 ≤ size then .ok text else .error .undefined

def fFastcgiParam (name value : Bytes) (value2 : Option Bytes) : Except Halt (Option Bytes) :=
  match value2 with
  | none => .ok (checkParameter name value)
  | some value2 => do
      let v ← store (value.length + value2.length + 1) (value ++ value2)
      .ok (checkParameter name v)

/-- `(int)((ceil(log10(value))+1)*sizeof(char))`: no size where the logarithm is not
defined. -/
def numParamSize (value : Int32) : Option Nat :=
  if 0 < value.toInt then some (Nat.clog 10 value.toInt.toNat + 1) else none

def fFastcgiNumParam (name : Bytes) (value : Int32) : Except Halt (Option Bytes) :=
  match numParamSize value with
  | none => .error .undefined
  | some len => do
      let str ← store len (formatInt value)
      .ok (checkParameter name str)

/-! ## The size -/

/-- `ceil(log10(value)) + 1`, with the logarithm of the reals. -/
noncomputable def logSize (value : Int32) : Option Int :=
  if 0 < value.toInt then some (⌈Real.logb 10 value.toInt⌉ + 1) else none

theorem numParamSize_eq_logSize (value : Int32) :
    (numParamSize value).map (fun len : Nat => (len : Int)) = logSize value := by
  rw [numParamSize, logSize]
  split
  case isFalse => rfl
  case isTrue positive =>
    have whole : (value.toInt.toNat : Int) = value.toInt := Int.toNat_of_nonneg positive.le
    have real : (value.toInt : ℝ) = (value.toInt.toNat : ℝ) := by
      rw [← whole]
      simp
    have ceiling := @Real.ceil_logb_natCast 10 _ (Nat.cast_nonneg (α := ℝ) value.toInt.toNat)
    rw [Int.clog_natCast] at ceiling
    rw [real, ← Nat.cast_ofNat (R := ℝ), ceiling]
    rfl

/-- A numeral has as many digits as the ceiling of the logarithm, but for powers of ten,
which have one more. -/
theorem length_decimal_le_clog_iff {n : Nat} (positive : 0 < n) :
    (decimal n).length ≤ Nat.clog 10 n ↔ ∀ k, n ≠ 10 ^ k := by
  have base : 1 < 10 := by decide
  rw [decimal, List.length_map]
  constructor
  · rintro le k rfl
    rw [Nat.clog_pow 10 k base] at le
    rcases Nat.eq_zero_or_pos k with rfl | above
    · have some_ : 0 < (Nat.toDigits 10 (10 ^ 0)).length := Nat.length_toDigits_pos
      omega
    · exact absurd ((Nat.length_toDigits_le_iff base above).mp le) (Nat.lt_irrefl _)
  · intro none_
    have above : 0 < Nat.clog 10 n := by
      apply Nat.clog_pos base
      have notOne := none_ 0
      omega
    rw [Nat.length_toDigits_le_iff base above]
    exact Nat.lt_of_le_of_ne (Nat.le_pow_clog base n) (none_ _)

theorem formatInt_of_pos {value : Int32} (positive : 0 < value.toInt) :
    formatInt value = decimal value.toInt.toNat := by
  rw [formatInt, if_neg (by omega)]
  congr 1
  omega

/-- The memory holds the digits of the value and the terminating zero. -/
def Fits (value : Int32) : Prop :=
  ∃ len, logSize value = some len ∧ ((formatInt value).length + 1 : Int) ≤ len

theorem fits_iff_numParamSize {value : Int32} :
    Fits value ↔ ∃ len, numParamSize value = some len ∧ (formatInt value).length + 1 ≤ len := by
  rw [Fits, ← numParamSize_eq_logSize]
  constructor
  · rintro ⟨size, mapped, le⟩
    rcases Option.map_eq_some_iff.mp mapped with ⟨len, is, whole⟩
    refine ⟨len, is, ?_⟩
    rw [← whole] at le
    exact_mod_cast le
  · rintro ⟨len, is, le⟩
    refine ⟨(len : Int), ?_, by exact_mod_cast le⟩
    rw [is]
    rfl

/-- The action returns for the values whose digits fit, and only for them. -/
theorem fFastcgiNumParam_returns_iff {name : Bytes} {value : Int32} :
    (∃ message, fFastcgiNumParam name value = .ok message) ↔ Fits value := by
  rw [fits_iff_numParamSize, fFastcgiNumParam]
  cases numParamSize value with
  | none => simp
  | some len =>
      by_cases le : (formatInt value).length + 1 ≤ len
      · have stored : store len (formatInt value) = .ok (formatInt value) := if_pos le
        simp only [stored, Option.some.injEq, exists_eq_left']
        exact ⟨fun _ => le, fun _ => ⟨_, rfl⟩⟩
      · have overruns : store len (formatInt value) = .error .undefined := if_neg le
        simp only [overruns, Option.some.injEq, exists_eq_left']
        constructor
        · rintro ⟨message, returns⟩
          cases returns
        · intro fits
          exact absurd fits le

/-- A number can give the action any value that is not negative. -/
theorem accepts_formatInt {value : Int32} (nonneg : 0 ≤ value.toInt) :
    accepts (formatInt value) = some (.number, (formatInt value).length) ∧
      atoi (formatInt value) = value := by
  refine ⟨accepts_number (isNumber_iff.mpr ?_), atoi_formatInt value⟩
  rw [formatInt, if_neg (by omega)]
  rcases decimal_cons value.toInt.natAbs with ⟨b, rest, shape, _⟩
  exact ⟨by simp [shape], isDigit_of_mem_decimal⟩

/-- The digits fit if and only if the value is positive and no power of ten. -/
theorem numParam_fits_iff (value : Int32) :
    Fits value ↔ 0 < value.toInt ∧ ∀ k : Nat, value.toInt ≠ 10 ^ k := by
  rw [fits_iff_numParamSize, numParamSize]
  split
  case isFalse low => simp [low]
  case isTrue positive =>
    have whole : (value.toInt.toNat : Int) = value.toInt := Int.toNat_of_nonneg positive.le
    have above : 0 < value.toInt.toNat := by omega
    have powers : (∀ k : Nat, value.toInt.toNat ≠ 10 ^ k) ↔ ∀ k : Nat, value.toInt ≠ 10 ^ k := by
      rw [← whole]
      exact_mod_cast Iff.rfl
    rw [formatInt_of_pos positive, ← powers, ← length_decimal_le_clog_iff above]
    simp [positive]

/-- Ten is written in two digits, and has the logarithm one. -/
theorem ten_does_not_fit :
    accepts (bytes "10") = some (.number, 2) ∧ atoi (bytes "10") = 10 ∧
      0 ≤ (10 : Int32).toInt ∧ ¬ Fits 10 := by
  refine ⟨by decide +kernel, by decide, by decide, ?_⟩
  rw [fits_iff_numParamSize]
  decide

end OgWebserver.Config
