import Hoststack.Json
import Hoststack.Lib.CharBuf

/-!
The lines of the loggers, which are put together in an array of `MAXBUF` characters.
-/

namespace Hoststack.Logger

/-- `MAXBUF` -/
def maxbuf : ℕ := 8192

/-- A broken-down time; the year is a signed number of 32 bits that counts from 1900. -/
structure Tm where
  year : Fin (2 ^ 31 + 1900)
  mon : Fin 12
  mday : Fin 32
  hour : Fin 24
  min : Fin 60
  sec : Fin 61

def decimal (n : ℕ) : Str := Nat.toDigits 10 n

/-- A number in two digits. -/
def twoDigits (n : ℕ) : Str := if n < 10 then '0' :: decimal n else decimal n

/-- The time in the format `%Y-%d-%m %H:%M:%S`. -/
def stamp (t : Tm) : Str :=
  decimal t.year ++ "-".toList ++ twoDigits t.mday ++ "-".toList ++ twoDigits (t.mon + 1) ++
    " ".toList ++ twoDigits t.hour ++ ":".toList ++ twoDigits t.min ++ ":".toList ++
    twoDigits t.sec

/-- What is known when a line is logged: the time, the level, the message as it is formatted,
the text of the error if there is one, and the place in the source. -/
structure Entry where
  time : Tm
  usec : Fin 1000000
  level : Str
  message : Str
  error : Option Str
  file : Str
  line : ℕ

/-- What `Logger::dolog` prints between the time and the message. -/
def levelPart (e : Entry) : Str :=
  ",".toList ++ decimal e.usec ++ " [".toList ++ e.level ++ "] ".toList

/-- What `_dolog` prints there. -/
def placePart (e : Entry) : Str :=
  ",".toList ++ decimal e.usec ++ " [".toList ++ e.level ++ "](".toList ++ e.file ++
    ":".toList ++ decimal e.line ++ ") ".toList

def errorPart (error : Str) : Str := ": ".toList ++ error

/-- The array after the time is written to it. -/
def strftime (t : Tm) : CharBuf := (CharBuf.empty maxbuf).append (maxbuf - 1) (stamp t)

/-- `snprintf` and `vsnprintf` at the end of the string. -/
def snprintf (b : CharBuf) (s : Str) : CharBuf := b.append b.left s

/-- `Logger::dolog` -/
def dolog (e : Entry) : CharBuf :=
  let buf := snprintf (snprintf (strftime e.time) (levelPart e)) e.message
  let buf :=
    match e.error with
    | some error => snprintf buf (errorPart error)
    | none => buf
  buf.strcat "\r\n".toList

/-- The `_dolog` behind `err_msg`. -/
def errDolog (e : Entry) : CharBuf :=
  (snprintf (snprintf (strftime e.time) (placePart e)) e.message).strcat "\n".toList

/-- The lines of both fit, and the sizes on the way were right. -/
structure LinesFit (e : Entry) : Prop where
  dolog : (dolog e).Fits
  errDolog : (errDolog e).Fits

/-- The number of characters that `Logger::dolog` would print before the end of the line if
there were room for all of them. -/
def lineLength (e : Entry) : ℕ :=
  (stamp e.time).length + (levelPart e).length + e.message.length +
    (e.error.elim 0 fun error => (errorPart error).length)

variable {e : Entry}

lemma length_decimal_le {n k : ℕ} (hk : 0 < k) (hn : n < 10 ^ k) : (decimal n).length ≤ k :=
  (Nat.length_toDigits_le_iff (by decide) hk).mpr hn

lemma length_twoDigits_le {n : ℕ} (hn : n < 100) : (twoDigits n).length ≤ 2 := by
  unfold twoDigits
  split_ifs with h
  · have hone : (decimal n).length ≤ 1 := length_decimal_le (by decide) h
    exact Nat.succ_le_succ hone
  · exact length_decimal_le (by decide) hn

lemma length_stamp_le (t : Tm) : (stamp t).length ≤ 25 := by
  have hyear : (decimal t.year).length ≤ 10 := length_decimal_le (by decide) (by omega)
  have hmday : (twoDigits t.mday).length ≤ 2 := length_twoDigits_le (by omega)
  have hmon : (twoDigits (t.mon + 1)).length ≤ 2 := length_twoDigits_le (by omega)
  have hhour : (twoDigits t.hour).length ≤ 2 := length_twoDigits_le (by omega)
  have hmin : (twoDigits t.min).length ≤ 2 := length_twoDigits_le (by omega)
  have hsec : (twoDigits t.sec).length ≤ 2 := length_twoDigits_le (by omega)
  have hdash : "-".toList.length = 1 := rfl
  have hblank : " ".toList.length = 1 := rfl
  have hcolon : ":".toList.length = 1 := rfl
  unfold stamp
  simp only [List.length_append]
  omega

lemma filled_strftime (t : Tm) : (strftime t).Filled (stamp t).length := by
  have hlen : (stamp t).length ≤ 25 := length_stamp_le t
  have hcap : maxbuf = 8192 := rfl
  unfold strftime
  apply CharBuf.filled_first
  · omega
  · omega
  · omega

lemma filled_snprintf {b : CharBuf} {n : ℕ} (h : b.Filled n) (s : Str) :
    (snprintf b s).Filled (n + s.length) :=
  h.append s

@[simp] lemma snprintf_cap (b : CharBuf) (s : Str) : (snprintf b s).cap = b.cap := rfl

@[simp] lemma strftime_cap (t : Tm) : (strftime t).cap = maxbuf := rfl

lemma dolog_fits_iff (e : Entry) : (dolog e).Fits ↔ lineLength e ≤ maxbuf - 3 := by
  have hmessage : (snprintf (snprintf (strftime e.time) (levelPart e)) e.message).Filled
      ((stamp e.time).length + (levelPart e).length + e.message.length) :=
    filled_snprintf (filled_snprintf (filled_strftime e.time) _) _
  have hmax : maxbuf = 8192 := rfl
  have hend : "\r\n".toList.length = 2 := rfl
  unfold dolog lineLength
  cases e.error with
  | none =>
    dsimp only [Option.elim]
    rw [hmessage.fits_strcat_iff, hend]
    simp only [snprintf_cap, strftime_cap]
    omega
  | some error =>
    dsimp only [Option.elim]
    rw [(filled_snprintf hmessage (errorPart error)).fits_strcat_iff, hend]
    simp only [snprintf_cap, strftime_cap]
    omega

lemma errDolog_fits (e : Entry) : (errDolog e).Fits := by
  have hmessage : (snprintf (snprintf (strftime e.time) (placePart e)) e.message).Filled
      ((stamp e.time).length + (placePart e).length + e.message.length) :=
    filled_snprintf (filled_snprintf (filled_strftime e.time) _) _
  have hmax : maxbuf = 8192 := rfl
  have hend : "\n".toList.length = 1 := rfl
  unfold errDolog
  rw [hmessage.fits_strcat_iff, hend]
  simp only [snprintf_cap, strftime_cap]
  omega

/-- **Log lines fit their array** exactly when what `Logger::dolog` has to print before the end
of the line leaves three bytes. -/
theorem linesFit_iff (e : Entry) : LinesFit e ↔ lineLength e ≤ maxbuf - 3 :=
  ⟨fun h => (dolog_fits_iff e).mp h.dolog, fun h => ⟨(dolog_fits_iff e).mpr h, errDolog_fits e⟩⟩

/-- A message that is cut off ends one byte behind the array. -/
theorem long_message_overruns :
    ¬ LinesFit ⟨⟨2024, 0, 1, 0, 0, 0⟩, 0, "INFO".toList, List.replicate 9000 'a', none,
      "main.cpp".toList, 1⟩ := by
  intro h
  have hlen := (dolog_fits_iff _).mp h.dolog
  have hmax : maxbuf = 8192 := rfl
  simp only [lineLength, List.length_replicate] at hlen
  omega

end Hoststack.Logger
