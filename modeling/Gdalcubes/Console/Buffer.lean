import Mathlib.Data.Nat.Digits
import Mathlib.Tactic.IntervalCases
import Mathlib.Data.String.Basic

/-!
# The console buffers of the package

Diagnostics and progress bars of `gdalcubes` reach R's console through two buffers:
`error_handling_r::_err_stream`, in which the error handlers format their lines, and
`r_stderr_buf::_s`, to which any thread may append but which only R's main thread writes
out, since R allows console output from its main thread only.  This file sets up the state
that these buffers share (`Console`) and the bodies of the critical sections that change it.
The code that takes the locks around these bodies is in `Gdalcubes/Console/Handlers.lean`.

Values of type `double` are Lean's `Float`s, which are IEEE doubles; nothing below depends
on their arithmetic except through the text of a progress frame.  That text is `renderBar`;
`setFrame_eq_renderBar` shows that the two loops of `progress_simple_R::_set` end and draw it.
-/

namespace Gdalcubes

/-- The text that `REprintf("%s", t.c_str())` writes: the conversion `%s` stops at the first
NUL character of `t`. -/
def cstr (t : String) : String := ⟨t.data.takeWhile (· != '\x00')⟩

/-- `t` has no NUL character, so that `REprintf("%s", t.c_str())` writes all of it. -/
def NulFree (t : String) : Prop := '\x00' ∉ t.data

instance (t : String) : Decidable (NulFree t) := inferInstanceAs (Decidable ('\x00' ∉ t.data))

lemma cstr_of_nulFree {t : String} (h : NulFree t) : cstr t = t := by
  refine String.ext (List.takeWhile_eq_self_iff.2 fun x hx => ?_)
  simpa using ne_of_mem_of_not_mem hx h

lemma NulFree.append {a b : String} (ha : NulFree a) (hb : NulFree b) : NulFree (a ++ b) := by
  simpa [NulFree, not_or] using And.intro ha hb

/-- `int(x)` for a `double` `x`: truncation toward zero.  Values outside the range of `int`
are undefined behaviour in C++; here they saturate. -/
def cInt (x : Float) : Int :=
  if x < 0 then -((-x).toUInt64.toNat : Int) else (x.toUInt64.toNat : Int)

/-- The frame that `progress_simple_R::_set` draws for the value `p`: `[`, then `int(50 * p)`
signs `=` (the first `while` loop), `>`, blanks up to fifty cells (the second loop), and the
percentage `int(p * 100.0)`. -/
def renderBar (p : Float) : String :=
  let pp := cInt (50 * p)
  "[" ++ String.mk (List.replicate pp.toNat '=') ++ ">" ++
    String.mk (List.replicate (50 - (pp.toNat + 1)) ' ') ++ "] " ++
    toString (cInt (p * 100.0)) ++ " %\r"

/-! ### The two loops of `_set` -/

/-- `while (i < pp) { if (i < pp) s << "="; ++i; }` from `i` and the text `s`, if it ends
within `fuel` tests of `i < pp`: the final `i` and text. -/
def fillLoop (pp : Int) : Nat → Int → String → Option (Int × String)
  | 0, _, _ => none
  | fuel + 1, i, s =>
    if i < pp then fillLoop pp fuel (i + 1) (if i < pp then s ++ "=" else s) else some (i, s)

/-- `while (i < 50) { s << " "; ++i; }` from `i` and the text `s`, if it ends within `fuel`
tests. -/
def padLoop : Nat → Int → String → Option (Int × String)
  | 0, _, _ => none
  | fuel + 1, i, s => if i < 50 then padLoop fuel (i + 1) (s ++ " ") else some (i, s)

/-- The frame as `progress_simple_R::_set(p)` builds it, each loop given `fuel` tests. -/
def setFrame (p : Float) (fuel : Nat) : Option String := do
  let pp := cInt (50 * p)
  let (i, s) ← fillLoop pp fuel 0 "["
  let (_, s) ← padLoop fuel (i + 1) (s ++ ">")
  return s ++ "] " ++ toString (cInt (p * 100.0)) ++ " %\r"

lemma cInt_toNat_lt (x : Float) : (cInt x).toNat < 2 ^ 64 := by
  unfold cInt
  split
  · simp
  · simpa using x.toUInt64.toNat_lt

lemma append_replicate_succ (s : String) (c : Char) (n : Nat) :
    s ++ String.mk [c] ++ String.mk (List.replicate n c) =
      s ++ String.mk (List.replicate (n + 1) c) := by
  rw [String.append_assoc]
  congr 1

lemma fillLoop_eq (pp : Int) : ∀ (fuel : Nat) (i : Int) (s : String), (pp - i).toNat < fuel →
    fillLoop pp fuel i s = some (max i pp, s ++ String.mk (List.replicate (pp - i).toNat '='))
  | 0, _, _, h => absurd h (Nat.not_lt_zero _)
  | fuel + 1, i, s, h => by
    rw [fillLoop]
    by_cases hi : i < pp
    · rw [if_pos hi, if_pos hi, fillLoop_eq pp fuel (i + 1) _ (by omega), max_eq_right hi.le,
        max_eq_right (by omega), show (pp - i).toNat = (pp - (i + 1)).toNat + 1 by omega]
      exact congrArg _ (congrArg _ (append_replicate_succ s '=' _))
    · rw [if_neg hi, max_eq_left (by omega), show (pp - i).toNat = 0 by omega]
      simp

lemma padLoop_eq : ∀ (fuel : Nat) (i : Int) (s : String), (50 - i).toNat < fuel →
    padLoop fuel i s = some (max i 50, s ++ String.mk (List.replicate (50 - i).toNat ' '))
  | 0, _, _, h => absurd h (Nat.not_lt_zero _)
  | fuel + 1, i, s, h => by
    rw [padLoop]
    by_cases hi : i < 50
    · rw [if_pos hi, padLoop_eq fuel (i + 1) _ (by omega), max_eq_right hi.le,
        max_eq_right (by omega), show (50 - i).toNat = (50 - (i + 1)).toNat + 1 by omega]
      exact congrArg _ (congrArg _ (append_replicate_succ s ' ' _))
    · rw [if_neg hi, max_eq_left (by omega), show (50 - i).toNat = 0 by omega]
      simp

/-- **The loops of `_set` draw `renderBar`.**  Given more tests than `int(50 * p) + 50`, both
loops end, and the frame is `[`, `int(50 * p)` signs `=`, `>`, the blanks up to fifty cells
and the percentage. -/
theorem setFrame_eq_renderBar (p : Float) (fuel : Nat) (h : (cInt (50 * p)).toNat + 50 < fuel) :
    setFrame p fuel = some (renderBar p) := by
  set pp := cInt (50 * p)
  have hfill : fillLoop pp fuel 0 "[" =
      some (max 0 pp, "[" ++ String.mk (List.replicate pp.toNat '=')) := by
    simpa using fillLoop_eq pp fuel 0 "[" (by omega)
  have hpad := padLoop_eq fuel (max 0 pp + 1)
    ("[" ++ String.mk (List.replicate pp.toNat '=') ++ ">") (by omega)
  rw [show (50 - (max 0 pp + 1)).toNat = 50 - (pp.toNat + 1) by omega] at hpad
  simp only [setFrame, hfill, hpad, Option.bind_eq_bind, Option.some_bind, Option.pure_def,
    renderBar]

theorem setFrame_eq_renderBar_half :
    (cInt (50 * 0.5)).toNat + 50 < 2 ^ 64 + 50 ∧
      setFrame 0.5 (2 ^ 64 + 50) = some (renderBar 0.5) :=
  have h : (cInt (50 * 0.5)).toNat + 50 < 2 ^ 64 + 50 := by
    have := cInt_toNat_lt (50 * 0.5)
    omega
  ⟨h, setFrame_eq_renderBar 0.5 _ h⟩

/-! ### Progress frames have no NUL character -/

lemma digitChar_ne_nul {d : Nat} (h : d < 10) : Nat.digitChar d ≠ '\x00' := by
  interval_cases d <;> decide

/-- The characters that `Nat.toDigitsCore 10` adds to `acc` are decimal digits. -/
lemma mem_toDigitsCore {f n : Nat} {acc : List Char} {c : Char}
    (h : c ∈ Nat.toDigitsCore 10 f n acc) : c ∈ acc ∨ ∃ d < 10, c = Nat.digitChar d := by
  induction f generalizing n acc with
  | zero => exact .inl h
  | succ f ih =>
    have hd : n % 10 < 10 := Nat.mod_lt _ (by omega)
    simp only [Nat.toDigitsCore] at h
    split at h
    · exact (List.mem_cons.1 h).elim (fun h => .inr ⟨_, hd, h⟩) .inl
    · exact (ih h).elim (fun h => (List.mem_cons.1 h).elim (fun h => .inr ⟨_, hd, h⟩) .inl) .inr

lemma nulFree_toString_nat (n : Nat) : NulFree (toString n) := by
  intro h
  obtain h | ⟨d, hd, h⟩ := @mem_toDigitsCore (n + 1) n [] _
    (by simpa [toString, Nat.repr, Nat.toDigits, List.asString] using h)
  · simp at h
  · exact digitChar_ne_nul hd h.symm

lemma nulFree_toString_int (n : Int) : NulFree (toString n) := by
  rcases n with n | n
  · exact nulFree_toString_nat n
  · exact NulFree.append (by decide) (nulFree_toString_nat _)

lemma nulFree_replicate {c : Char} (hc : c ≠ '\x00') (n : Nat) :
    NulFree (String.mk (List.replicate n c)) := by
  simp [NulFree, List.mem_replicate, hc.symm]

lemma renderBar_nulFree (p : Float) : NulFree (renderBar p) := by
  unfold renderBar
  refine .append (.append (.append (.append (.append (.append ?_ ?_) ?_) ?_) ?_) ?_) ?_
  all_goals first
    | exact nulFree_replicate (by decide) _
    | exact nulFree_toString_int _
    | decide

/-- The state shared by the console functions: the static members of `r_stderr_buf` and
`error_handling_r`, the value `_p` of each `progress_simple_R` object, and what has reached
R's console and the log file. -/
structure Console where
  /-- `r_stderr_buf::_s`: text that waits for the main thread. -/
  s : String
  /-- `error_handling_r::_err_stream`: formatted lines not yet handed to `r_stderr_buf`. -/
  errStream : String
  /-- `error_handling_r::_defer`. -/
  defer : Bool
  /-- Everything `REprintf` has written to R's console. -/
  emitted : String
  /-- Everything appended to the file `error_handling_r::_logfile`. -/
  logFile : String
  /-- `_p` of each progress bar, by object. -/
  bar : Nat → Float

namespace Console

/-- The state when the package is loaded: empty buffers, output not deferred, and every
progress bar constructed with `_p(0)`. -/
def init : Console := ⟨"", "", false, "", "", fun _ => 0⟩

/-- The body of `r_stderr_buf::print(t)`, run under `r_stderr_buf::_m` by a thread; `main`
tells whether it is R's main thread.  The text is appended to `_s`, and on the main thread
a non-empty buffer is written out and cleared. -/
def put (main : Bool) (t : String) (c : Console) : Console :=
  if c.s ++ t ≠ "" ∧ main = true then { c with s := "", emitted := c.emitted ++ cstr (c.s ++ t) }
  else { c with s := c.s ++ t }

/-- `_err_stream << ... << std::endl`: a formatted line enters the stream. -/
def record (line : String) (c : Console) : Console := { c with errStream := c.errStream ++ line }

/-- `_err_stream.str("")`. -/
def clearErr (c : Console) : Console := { c with errStream := "" }

/-- `_defer = b`. -/
def setDefer (b : Bool) (c : Console) : Console := { c with defer := b }

/-- `_p = f(_p)` for one progress bar. -/
def setP (bar : Nat) (f : Float → Float) (c : Console) : Console :=
  { c with bar := Function.update c.bar bar (f (c.bar bar)) }

/-- `os << ...`: a line appended to the log file. -/
def log (line : String) (c : Console) : Console := { c with logFile := c.logFile ++ line }

/-- `if (_err_stream.rdbuf()->in_avail() > 0) { r_stderr_buf::print(_err_stream.str());
_err_stream.str(""); }`: nothing of the stream has been read, so `in_avail()` is its length. -/
def flushErr (main : Bool) (c : Console) : Console :=
  if c.errStream ≠ "" then (c.put main c.errStream).clearErr else c

/-! ### What each step leaves alone -/

@[simp] lemma put_errStream (m : Bool) (t : String) (c : Console) :
    (c.put m t).errStream = c.errStream := by
  unfold put; split <;> rfl

@[simp] lemma put_defer (m : Bool) (t : String) (c : Console) : (c.put m t).defer = c.defer := by
  unfold put; split <;> rfl

@[simp] lemma put_bar (m : Bool) (t : String) (c : Console) : (c.put m t).bar = c.bar := by
  unfold put; split <;> rfl

@[simp] lemma put_logFile (m : Bool) (t : String) (c : Console) :
    (c.put m t).logFile = c.logFile := by
  unfold put; split <;> rfl

@[simp] lemma setDefer_s (b : Bool) (c : Console) : (c.setDefer b).s = c.s := rfl
@[simp] lemma setDefer_errStream (b : Bool) (c : Console) :
    (c.setDefer b).errStream = c.errStream := rfl
@[simp] lemma setDefer_defer (b : Bool) (c : Console) : (c.setDefer b).defer = b := rfl
@[simp] lemma setDefer_emitted (b : Bool) (c : Console) : (c.setDefer b).emitted = c.emitted := rfl

/-- Off the main thread, `print` only appends to `_s`. -/
lemma put_false (t : String) (c : Console) : c.put false t = { c with s := c.s ++ t } := by
  simp [put]

/-- After a `print` on the main thread, `_s` is empty. -/
@[simp] lemma put_true_s (t : String) (c : Console) : (c.put true t).s = "" := by
  unfold put; split
  · rfl
  · simp_all

@[simp] lemma flushErr_errStream (m : Bool) (c : Console) : (c.flushErr m).errStream = "" := by
  unfold flushErr; split
  · rfl
  · simp_all

@[simp] lemma flushErr_defer (m : Bool) (c : Console) : (c.flushErr m).defer = c.defer := by
  unfold flushErr; split <;> simp [clearErr]

@[simp] lemma flushErr_bar (m : Bool) (c : Console) : (c.flushErr m).bar = c.bar := by
  unfold flushErr; split <;> simp [clearErr]

end Console

end Gdalcubes
