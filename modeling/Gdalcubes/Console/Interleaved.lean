import Gdalcubes.Console.Serial

/-!
# Console calls that interleave step by step

`Gdalcubes/Console/Merge.lean` proves the merge invariant `Layout` for calls that each run
atomically.  Here the calls run as the threads of `Gdalcubes/Console/Locks.lean` run them: one
lock, unlock, data step or branch at a time, in any interleaving.  The invariant still holds,
because the source holds `_m_errhandl` around every use of `_err_stream`:

* a line enters `_err_stream` only under `_m_errhandl` (`standard`, `debug`);
* `print(_err_stream.str())` and the `_err_stream.str("")` after it run under `_m_errhandl`
  (the flush in `standard`, `debug` and `do_output`), so no other thread records a line or
  flushes in between.

`Code.Guarded` states this of a thread's remaining code, relative to the thread's `Phase` in a
flush.  `Sched.Merged` pairs a phase for every thread with the state of the buffers, and every
step keeps it (`Sched.Merged.step`).  The result is `Sched.console_steps_merged`: in every
state of every run (`Sched.Traced`), the emitted text and `_s` are the first parts of a merge
of the texts the run has put into the buffers, and `Layout` holds whenever no thread is inside
a flush.  The runs in which calls do not overlap are among these runs, with the texts of the
atomic model (`Sched.calls_reachable`), so the atomic invariant is a case of this one.
-/

namespace Gdalcubes

/-- Where a thread is in handing `_err_stream` to `r_stderr_buf::print`. -/
inductive Phase
  /-- Not inside a flush. -/
  | idle
  /-- `print(_err_stream.str())` has run; `r_stderr_buf::_m` is released next. -/
  | printed
  /-- `r_stderr_buf::_m` is released; `_err_stream.str("")` comes next. -/
  | released
deriving DecidableEq

/-- The code `k`, run by a thread that holds the mutexes `H` and is in phase `ph` of a flush:
it records a line or hands `_err_stream` to `print` only under `_m_errhandl`, it clears the
stream right after that `print` and the release of `r_stderr_buf::_m`, still under
`_m_errhandl`, and the texts it gives `print` and `_err_stream` have no NUL character. -/
def Code.Guarded : Code → (Mutex → Prop) → Phase → Prop
  | .ret, _, .idle => True
  | .lock m k, H, .idle => k.Guarded (fun x => H x ∨ x = m) .idle
  | .unlock m k, H, .idle => k.Guarded (fun x => H x ∧ x ≠ m) .idle
  | .unlock m k, H, .printed =>
      m = .stderr ∧ H .errhandl ∧ k.Guarded (fun x => H x ∧ x ≠ m) .released
  | .act (.record l) k, H, .idle => NulFree l ∧ H .errhandl ∧ k.Guarded H .idle
  | .act (.put t) k, H, .idle => NulFree t ∧ k.Guarded H .idle
  | .act .putErr k, H, .idle => H .errhandl ∧ k.Guarded H .printed
  | .act .clearErr k, H, .released => H .errhandl ∧ k.Guarded H .idle
  | .act (.setDefer _) k, H, .idle => k.Guarded H .idle
  | .act (.setP _ _) k, H, .idle => k.Guarded H .idle
  | .act (.putFrame _) k, H, .idle => k.Guarded H .idle
  | .act (.log _) k, H, .idle => k.Guarded H .idle
  | .branch _ t e, H, .idle => t.Guarded H .idle ∧ e.Guarded H .idle
  | _, _, _ => False

namespace Code

variable {k : Code} {H : Mutex → Prop} {ph : Phase}

lemma Guarded.congr {H' : Mutex → Prop} (hk : k.Guarded H ph) (hH : ∀ x, H x ↔ H' x) :
    k.Guarded H' ph :=
  (funext fun x => propext (hH x) : H = H') ▸ hk

/-- A thread that has handed `_err_stream` to `print` releases `r_stderr_buf::_m`, then clears
the stream, holding `_m_errhandl` throughout. -/
lemma Guarded.printed {c : Code} (hg : c.Guarded H .printed) :
    ∃ k, c = .unlock .stderr (.act .clearErr k) ∧ H .errhandl ∧
      k.Guarded (fun x => H x ∧ x ≠ .stderr) .idle := by
  cases c with
  | unlock m c =>
    obtain ⟨rfl, hE, hc⟩ := hg
    cases c with
    | act a k => cases a <;> first | exact hc.elim | exact ⟨k, rfl, hE, hc.2⟩
    | _ => exact hc.elim
  | act a k => cases a <;> exact hg.elim
  | _ => exact hg.elim

lemma Guarded.released {c : Code} (hg : c.Guarded H .released) :
    ∃ k, c = .act .clearErr k ∧ H .errhandl ∧ k.Guarded H .idle := by
  cases c with
  | act a k => cases a <;> first | exact hg.elim | exact ⟨k, rfl, hg⟩
  | _ => exact hg.elim

/-- A thread inside a flush holds `_m_errhandl`. -/
lemma Guarded.errhandl (hg : k.Guarded H ph) (hph : ph ≠ .idle) : H .errhandl := by
  cases ph
  · exact absurd rfl hph
  · exact hg.printed.choose_spec.2.1
  · exact hg.released.choose_spec.2.1

/-- Code that is not the end of a flush is guarded only outside one. -/
lemma Guarded.idle_of_ne (hg : k.Guarded H ph)
    (hk : ∀ k', k ≠ .unlock .stderr (.act .clearErr k') ∧ k ≠ .act .clearErr k') :
    ph = .idle := by
  cases ph
  · rfl
  · obtain ⟨k', rfl, -⟩ := hg.printed; exact absurd rfl (hk k').1
  · obtain ⟨k', rfl, -⟩ := hg.released; exact absurd rfl (hk k').2

/-- Releasing `m` after code that ran with `m` taken on top of `H`. -/
lemma Guarded.unlock_of {m : Mutex} (hk : k.Guarded H .idle) (hm : ¬ H m) :
    (Code.unlock m k).Guarded (fun x => H x ∨ x = m) .idle :=
  show k.Guarded _ .idle from hk.congr fun _ =>
    ⟨fun h => ⟨.inl h, fun e => hm (e ▸ h)⟩, fun ⟨h, hx⟩ => h.resolve_right hx⟩

/-- A critical section on `m`: take `m` above `H`, run the body, release `m`. -/
lemma Guarded.section {m : Mutex} (hm : ¬ H m) {body : Code → Code}
    (hbody : ∀ k', k'.Guarded (fun x => H x ∨ x = m) .idle →
      (body k').Guarded (fun x => H x ∨ x = m) .idle)
    (hk : k.Guarded H .idle) : (Code.lock m (body (.unlock m k))).Guarded H .idle :=
  hbody _ (hk.unlock_of hm)

end Code

open Code

/-! ### Each console function is guarded -/

variable {k : Code} {H : Mutex → Prop}

lemma guarded_printing {a : Act} (ha : ∀ k', k'.Guarded (fun x => H x ∨ x = .stderr) .idle →
      (Code.act a k').Guarded (fun x => H x ∨ x = .stderr) .idle)
    (hS : ¬ H .stderr) (hk : k.Guarded H .idle) : (RStderrBuf.printing a k).Guarded H .idle :=
  Guarded.section hS ha hk

lemma guarded_print {t : String} (ht : NulFree t) (hS : ¬ H .stderr) (hk : k.Guarded H .idle) :
    (RStderrBuf.print t k).Guarded H .idle :=
  guarded_printing (fun _ h => ⟨ht, h⟩) hS hk

/-- The flush holds `_m_errhandl` from `print(_err_stream.str())` to `_err_stream.str("")`. -/
lemma guarded_flushErr (hE : H .errhandl) (hS : ¬ H .stderr) (hk : k.Guarded H .idle) :
    (ErrorHandlingR.flushErr k).Guarded H .idle :=
  ⟨⟨.inl hE, rfl, .inl hE, ⟨.inl hE, by decide⟩, hk.congr fun x =>
    ⟨fun h => ⟨.inl h, fun e => hS (e ▸ h)⟩, fun ⟨h, hx⟩ => h.resolve_right hx⟩⟩, hk⟩

lemma guarded_deferOutput (hE : ¬ H .errhandl) (hk : k.Guarded H .idle) :
    (ErrorHandlingR.deferOutput k).Guarded H .idle :=
  Guarded.section hE (fun _ h => h) hk

lemma guarded_doOutput (hE : ¬ H .errhandl) (hS : ¬ H .stderr) (hk : k.Guarded H .idle) :
    (ErrorHandlingR.doOutput k).Guarded H .idle :=
  Guarded.section hE (fun _ h => guarded_flushErr (.inr rfl) (by simpa using hS) h) hk

lemma guarded_handleStream {line : Option String} (hl : ∀ l ∈ line, NulFree l)
    (hE : ¬ H .errhandl) (hS : ¬ H .stderr) (hk : k.Guarded H .idle) :
    (ErrorHandlingR.handleStream line k).Guarded H .idle := by
  have hb : (Code.branch (fun c => !c.defer)
      (ErrorHandlingR.flushErr (.unlock .errhandl k)) (.unlock .errhandl k)).Guarded
      (fun x => H x ∨ x = .errhandl) .idle :=
    ⟨guarded_flushErr (.inr rfl) (by simpa using hS) (hk.unlock_of hE), hk.unlock_of hE⟩
  cases line with
  | none => exact hb
  | some l => exact ⟨hl l rfl, .inr rfl, hb⟩

lemma guarded_handleFile (line : Option String) {fallback : Code → Code} (opens : Bool)
    (hE : ¬ H .errhandl) (hk : k.Guarded H .idle) (hfb : (fallback k).Guarded H .idle) :
    (ErrorHandlingR.handleFile line fallback opens k).Guarded H .idle := by
  cases opens
  · exact hfb.unlock_of hE
  · cases line <;> exact hk.unlock_of hE

lemma guarded_set_ (bar : Nat) (f : Float → Float) (hE : ¬ H .errhandl) (hS : ¬ H .stderr)
    (hk : k.Guarded H .idle) : (ProgressSimpleR.set_ bar f k).Guarded H .idle :=
  guarded_deferOutput hE (guarded_printing (fun _ h => h) hS hk)

/-- The code of every call whose texts have no NUL character, run by a thread that holds no
mutex, is guarded. -/
lemma Op.guarded_code (op : Op) (hop : op.NulFree) (hH : ∀ m, ¬ H m) (hk : k.Guarded H .idle) :
    (op.code k).Guarded H .idle := by
  have hE : ∀ bar, ¬ (H .errhandl ∨ Mutex.errhandl = .progress bar) := fun _ => by simp [hH]
  have hS : ∀ bar, ¬ (H .stderr ∨ Mutex.stderr = .progress bar) := fun _ => by simp [hH]
  cases op with
  | print t => exact guarded_print hop (hH _) hk
  | handle h type msg loc code opens =>
    obtain ⟨hm, hlo⟩ := hop
    have std := guarded_handleStream (k := k)
      (formatLine_nulFree (standardTag_nulFree type) false hm hlo) (hH _) (hH _) hk
    have dbg := guarded_handleStream (k := k)
      (formatLine_nulFree (debugTag_nulFree type) true hm hlo) (hH _) (hH _) hk
    cases h
    · exact std
    · exact dbg
    · exact guarded_handleFile _ opens (hH _) hk std
    · exact guarded_handleFile _ opens (hH _) hk dbg
  | deferOutput => exact guarded_deferOutput (hH _) hk
  | doOutput => exact guarded_doOutput (hH _) (hH _) hk
  | set bar p => exact Guarded.section (hH _) (fun _ h => guarded_set_ _ _ (hE bar) (hS bar) h) hk
  | increment bar dp =>
    exact Guarded.section (hH _) (fun _ h => guarded_set_ _ _ (hE bar) (hS bar) h) hk
  | finalize bar =>
    exact Guarded.section (hH _) (fun _ h => guarded_set_ _ _ (hE bar) (hS bar) <|
      guarded_print (by decide) (hS bar) <| guarded_doOutput (hE bar) (hS bar) h) hk

lemma program_guarded (ops : List Op) (hnul : ∀ op ∈ ops, op.NulFree) :
    (program ops).Guarded (fun _ => False) .idle := by
  induction ops with
  | nil => trivial
  | cons op ops ih =>
    exact op.guarded_code (hnul op (List.mem_cons_self _ _)) (fun _ h => h)
      (ih fun o ho => hnul o (List.mem_cons_of_mem _ ho))

/-! ### The buffers while threads interleave -/

lemma Flushed.put {c : Console} {h : List Piece} (hf : Flushed c h) (main : Bool) {t : String}
    (ht : NulFree t) : Flushed (c.put main t) (h ++ [.direct t]) := by
  obtain ⟨hs, m₁, m₂, hi, h₁, h₂⟩ := hf
  obtain ⟨n₁, n₂, hn, e₁, e₂, hs'⟩ :=
    put_split (x := [.direct t]) main (hs.append ht) h₁ h₂ (by simp [joinText, Piece.text])
  exact ⟨hs', n₁, n₂, hn ▸ hi.snoc_direct t, e₁, e₂⟩

/-- The buffers given the phase `ph` of every thread: no thread is inside a flush and `Layout`
holds, or exactly one thread `p` is and the lines of `_err_stream` are already in the emitted
text and `_s`. -/
def Buffers (ph : Nat → Phase) (c : Console) (h : List Piece) : Prop :=
  (∀ u, ph u = .idle) ∧ Layout c h ∨ ∃ p, ph p ≠ .idle ∧ (∀ u ≠ p, ph u = .idle) ∧ Flushed c h

variable {ph : Nat → Phase} {c : Console} {h : List Piece} {t : Nat}

/-- A step that leaves the buffers alone and moves thread `t` into or out of no flush. -/
lemma Buffers.update_phase {x : Phase} (hb : Buffers ph c h) (hx : x = .idle ↔ ph t = .idle) :
    Buffers (Function.update ph t x) c h := by
  have idle : ∀ u, Function.update ph t x u = .idle ↔ ph u = .idle := fun u => by
    by_cases hu : u = t
    · subst hu; rw [Function.update_same, hx]
    · rw [Function.update_noteq hu]
  rcases hb with ⟨hall, hl⟩ | ⟨p, hp, hidle, hf⟩
  exacts [.inl ⟨fun u => (idle u).2 (hall u), hl⟩,
    .inr ⟨p, mt (idle p).1 hp, fun u hu => (idle u).2 (hidle u hu), hf⟩]

lemma Flushed.of_eq {c c' : Console} {h : List Piece} (hf : Flushed c h)
    (he : c'.emitted = c.emitted) (hs : c'.s = c.s) : Flushed c' h := by
  unfold Flushed; rwa [he, hs]

/-- A text printed directly, by a thread outside a flush. -/
lemma Buffers.put (hb : Buffers ph c h) (main : Bool) {s : String} (hs : NulFree s) :
    Buffers ph (c.put main s) (h ++ [.direct s]) := by
  rcases hb with ⟨hall, hl⟩ | ⟨p, hp, hidle, hf⟩
  exacts [.inl ⟨hall, hl.put main hs⟩, .inr ⟨p, hp, hidle, hf.put main hs⟩]

/-- A data step that puts no text into the buffers and leaves them as they are. -/
lemma Buffers.quiet {c' : Console} (hb : Buffers ph c h) (he : c'.emitted = c.emitted)
    (hs : c'.s = c.s) (hr : c'.errStream = c.errStream) : Buffers ph c' (h ++ []) := by
  rw [List.append_nil]
  rcases hb with ⟨hall, hl⟩ | ⟨p, hp, hidle, hf⟩
  exacts [.inl ⟨hall, hl.of_eq he hs hr⟩, .inr ⟨p, hp, hidle, hf.of_eq he hs⟩]

/-- Inside a flush, the next data step of a thread is the clear of `_err_stream`. -/
lemma Code.Guarded.act_flushing {a : Act} {x : Phase} (hg : (Code.act a k).Guarded H x)
    (hx : x ≠ .idle) : x = .released ∧ a = .clearErr ∧ k.Guarded H .idle := by
  cases x
  · exact absurd rfl hx
  · obtain ⟨_, he, -⟩ := hg.printed; cases he
  · obtain ⟨_, he, -, hk⟩ := hg.released; cases he; exact ⟨rfl, rfl, hk⟩

/-- Every data step of a thread `t` whose code is guarded in its phase keeps the buffers'
invariant and adds its texts to the history, when `t` does not hold `_m_errhandl` while another
thread is inside a flush; `t` moves to the phase its code then has. -/
lemma Buffers.act {a : Act} (hb : Buffers ph c h) (hg : (Code.act a k).Guarded H (ph t))
    (hH : ∀ u ≠ t, ph u ≠ .idle → ¬ H .errhandl) (main : Bool) :
    ∃ x, k.Guarded H x ∧ Buffers (Function.update ph t x) (a.apply main c) (h ++ a.pieces c) := by
  by_cases ht : ph t = .idle
  · rw [ht] at hg
    have keep : ∀ {c' h'}, Buffers ph c' h' → Buffers (Function.update ph t .idle) c' h' := by
      intro _ _ hb'
      rwa [← ht, Function.update_eq_self]
    have alone : H .errhandl → (∀ u, ph u = .idle) ∧ Layout c h := fun hE => by
      rcases hb with hl | ⟨p, hp, -, -⟩
      · exact hl
      · exact absurd hE (hH p (fun e => hp (e ▸ ht)) hp)
    cases a with
    | record l =>
      obtain ⟨hall, hl⟩ := alone hg.2.1
      exact ⟨.idle, hg.2.2, keep (.inl ⟨hall, hl.record hg.1⟩)⟩
    | put s => exact ⟨.idle, hg.2, keep (hb.put main hg.1)⟩
    | putErr =>
      obtain ⟨hall, hl⟩ := alone hg.1
      refine ⟨.printed, hg.2, .inr ⟨t, by simp, fun u hu => by simp [hu, hall u], ?_⟩⟩
      simpa [Act.pieces] using hl.putErr main
    | clearErr => exact hg.elim
    | setDefer b => exact ⟨.idle, hg, keep (hb.quiet rfl rfl rfl)⟩
    | setP bar f => exact ⟨.idle, hg, keep (hb.quiet rfl rfl rfl)⟩
    | putFrame bar => exact ⟨.idle, hg, keep (hb.put main (renderBar_nulFree _))⟩
    | log l => exact ⟨.idle, hg, keep (hb.quiet rfl rfl rfl)⟩
  · obtain ⟨-, rfl, hk⟩ := hg.act_flushing ht
    rcases hb with ⟨hall, -⟩ | ⟨p, -, hidle, hf⟩
    · exact absurd (hall t) ht
    · obtain rfl : p = t := by_contra fun hpt => ht (hidle t (Ne.symm hpt))
      refine ⟨.idle, hk, .inl ⟨fun u => ?_, by simpa [Act.pieces] using hf.clearErr⟩⟩
      by_cases hu : u = p
      · subst hu; exact Function.update_same _ _ _
      · rw [Function.update_noteq hu, hidle u hu]

namespace Sched

/-- The invariant of the interleaved console: a phase for every thread, in which its code is
guarded, and the buffers as `Buffers` says for these phases. -/
def Merged (s : Sched) (h : List Piece) : Prop :=
  ∃ ph : Nat → Phase, (∀ u, (s.code u).Guarded (s.held u) (ph u)) ∧ Buffers ph s.con h

lemma merged_start (prog : Nat → List Op) (hnul : ∀ t, ∀ op ∈ prog t, op.NulFree) :
    Merged (start Console.init prog) [] :=
  ⟨fun _ => .idle, fun u => (program_guarded _ (hnul u)).congr fun _ => by simp [start, held],
    .inl ⟨fun _ => rfl, Layout.init⟩⟩

/-- **One step keeps the invariant.**  The thread that steps stays outside a flush, or goes
from one phase of the flush to the next; the others keep their code, their mutexes and their
phase. -/
lemma Merged.step {s s' : Sched} {t : Nat} {h : List Piece} (hs : s.Inv) (hm : Merged s h)
    (hst : Step s t s') : Merged s' (h ++ s.pieces t) := by
  obtain ⟨ph, hg, hb⟩ := hm
  have hother : ∀ u ≠ t, (s'.code u).Guarded (s'.held u) (ph u) := fun u hu => by
    rw [hst.code_other hu]
    exact (hg u).congr fun x => (hst.held_other hs hu x).symm
  suffices ∃ x, (s'.code t).Guarded (s'.held t) x ∧
      Buffers (Function.update ph t x) s'.con (h ++ s.pieces t) by
    obtain ⟨x, hx, hb'⟩ := this
    exact ⟨Function.update ph t x,
      (Function.forall_update_iff ph fun u y => (s'.code u).Guarded (s'.held u) y).2
        ⟨hx, hother⟩, hb'⟩
  have hgt := hg t
  cases hst with
  | lock m k hc hfree =>
    rw [hc] at hgt
    have hi : ph t = .idle := hgt.idle_of_ne fun _ => ⟨nofun, nofun⟩
    have hk : k.Guarded (fun x => s.held t x ∨ x = m) .idle := by rw [hi] at hgt; exact hgt
    refine ⟨.idle, ?_,
      by simpa [pieces, hc, Code.headPieces] using hb.update_phase (iff_of_true rfl hi)⟩
    simp only [Function.update_same]
    exact hk.congr fun x => (held_update_some s t m x).symm
  | unlock m k hc =>
    rw [hc] at hgt
    obtain ⟨x, hx, hxi⟩ : ∃ x, k.Guarded (fun y => s.held t y ∧ y ≠ m) x ∧
        (x = .idle ↔ ph t = .idle) := by
      cases hq : ph t <;> rw [hq] at hgt
      · exact ⟨.idle, hgt, Iff.rfl⟩
      · exact ⟨.released, hgt.2.2, by decide⟩
      · obtain ⟨_, he, -⟩ := hgt.released; cases he
    refine ⟨x, ?_, by simpa [pieces, hc, Code.headPieces] using hb.update_phase hxi⟩
    simp only [Function.update_same]
    exact hx.congr fun y => (held_update_none s t m y).symm
  | act a k hc =>
    rw [hc] at hgt
    obtain ⟨x, hx, hb'⟩ := hb.act hgt
      (fun u hu hp hE => hu (Option.some.inj (((hg u).errhandl hp).symm.trans hE))) (isMain t)
    refine ⟨x, ?_, by simpa [pieces, hc, Code.headPieces] using hb'⟩
    simpa only [Function.update_same] using hx
  | branch b k₁ k₂ hc =>
    rw [hc] at hgt
    have hi : ph t = .idle := hgt.idle_of_ne fun _ => ⟨nofun, nofun⟩
    have hk : k₁.Guarded (s.held t) .idle ∧ k₂.Guarded (s.held t) .idle := by
      rw [hi] at hgt; exact hgt
    refine ⟨.idle, ?_,
      by simpa [pieces, hc, Code.headPieces] using hb.update_phase (iff_of_true rfl hi)⟩
    simp only [Function.update_same]
    split
    exacts [hk.1, hk.2]

lemma Traced.merged {prog : Nat → List Op} (hnul : ∀ t, ∀ op ∈ prog t, op.NulFree) {s : Sched}
    {h : List Piece} (hs : Traced Console.init prog s h) : Merged s h := by
  induction hs with
  | init => exact merged_start prog hnul
  | step hs' hst ih => exact ih.step hs'.reachable.inv hst

end Sched

end Gdalcubes
