import Gdalcubes.Console.Handlers

/-!
# Diagnostics and progress frames reach the console whole and in order

A diagnostic line travels from `error_handling_r::_err_stream` to `r_stderr_buf::_s` to R's
console; a progress frame is put into `_s` directly and may overtake diagnostics that are held
back while output is deferred.  The invariant `Layout` says that between two calls the emitted
text, `_s` and `_err_stream`, read one after the other, are the texts of all calls so far,
merged: the diagnostic lines in the order they were recorded and the directly printed texts in
the order they were printed, each whole, none lost and none duplicated.  `_err_stream` holds
diagnostic lines only, and the emitted text grows only on R's main thread.

`REprintf("%s", ...)` stops at a NUL character, so the merge is exact for calls whose texts
have none (`Op.NulFree`); `console_nul_cuts` shows a NUL character cutting a line short.
The main result is `console_calls_merged`.
-/

namespace Gdalcubes

/-- A text that a call puts into the console buffers. -/
inductive Piece
  /-- A line formatted by an error handler. -/
  | diag (line : String)
  /-- A text handed to `r_stderr_buf::print` by the caller: a frame, a line break. -/
  | direct (text : String)

namespace Piece

/-- The text of a piece. -/
def text : Piece → String
  | diag l => l
  | direct t => t

/-- The line of a diagnostic piece. -/
def diagLine? : Piece → Option String
  | diag l => some l
  | direct _ => none

/-- The text of a directly printed piece. -/
def directText? : Piece → Option String
  | direct t => some t
  | diag _ => none

@[simp] lemma diagLine?_diag (l : String) : (diag l).diagLine? = some l := rfl
@[simp] lemma diagLine?_direct (t : String) : (direct t).diagLine? = none := rfl
@[simp] lemma directText?_diag (l : String) : (diag l).directText? = none := rfl
@[simp] lemma directText?_direct (t : String) : (direct t).directText? = some t := rfl

lemma directText?_eq_none {p : Piece} (h : p.diagLine?.isSome) : p.directText? = none := by
  cases p <;> simp_all

end Piece

/-- The texts of pieces, one after another. -/
def joinText : List Piece → String
  | [] => ""
  | p :: ps => p.text ++ joinText ps

@[simp] lemma joinText_nil : joinText [] = "" := rfl

@[simp] lemma joinText_append (a b : List Piece) :
    joinText (a ++ b) = joinText a ++ joinText b := by
  induction a with
  | nil => simp
  | cons p a ih => simp [joinText, ih, String.append_assoc]

/-- `m` merges the diagnostic lines of `h` and its directly printed texts: both keep their
order, and nothing is lost or duplicated. -/
def Interleaves (m h : List Piece) : Prop :=
  m.filterMap Piece.diagLine? = h.filterMap Piece.diagLine? ∧
    m.filterMap Piece.directText? = h.filterMap Piece.directText?

/-- A printed text goes after every text printed before it, which all lie in `a`, and before
the diagnostics `b` that still wait in `_err_stream`. -/
lemma Interleaves.insert_direct {a b h : List Piece} (hi : Interleaves (a ++ b) h)
    (hb : ∀ p ∈ b, p.diagLine?.isSome) (t : String) :
    Interleaves (a ++ [.direct t] ++ b) (h ++ [.direct t]) := by
  have hnone : b.filterMap Piece.directText? = [] :=
    List.filterMap_eq_nil_iff.2 fun p hp => Piece.directText?_eq_none (hb p hp)
  obtain ⟨h₁, h₂⟩ := hi
  simp only [List.filterMap_append, hnone, List.append_nil] at h₁ h₂
  constructor <;> simp [← h₁, ← h₂, hnone]

lemma Interleaves.snoc_diag {m h : List Piece} (hi : Interleaves m h) (l : String) :
    Interleaves (m ++ [.diag l]) (h ++ [.diag l]) := by
  obtain ⟨h₁, h₂⟩ := hi
  constructor <;> simp [h₁, h₂]

lemma Interleaves.snoc_direct {m h : List Piece} (hi : Interleaves m h) (t : String) :
    Interleaves (m ++ [.direct t]) (h ++ [.direct t]) := by
  obtain ⟨h₁, h₂⟩ := hi
  constructor <;> simp [h₁, h₂]

/-! ### The invariant -/

/-- Between two calls: the emitted text, `_s` and `_err_stream` are the texts of three
consecutive parts of one merge of the history `h`, the last part holds diagnostic lines only,
and no text waiting in a buffer has a NUL character. -/
def Layout (c : Console) (h : List Piece) : Prop :=
  NulFree c.s ∧ NulFree c.errStream ∧
    ∃ m₁ m₂ m₃ : List Piece, Interleaves (m₁ ++ m₂ ++ m₃) h ∧ c.emitted = joinText m₁ ∧
      c.s = joinText m₂ ∧ c.errStream = joinText m₃ ∧ ∀ p ∈ m₃, p.diagLine?.isSome

lemma Layout.init : Layout Console.init [] :=
  ⟨by decide, by decide, [], [], [], ⟨rfl, rfl⟩, rfl, rfl, rfl, by simp⟩

lemma Layout.of_eq {c c' : Console} {h : List Piece} (hl : Layout c h)
    (he : c'.emitted = c.emitted) (hs : c'.s = c.s) (hr : c'.errStream = c.errStream) :
    Layout c' h := by
  unfold Layout; rwa [he, hs, hr]

/-- `print` moves the boundary between the emitted text and `_s`: what it writes out is a
prefix of `_s` followed by the new text, and never a part of a piece. -/
lemma put_split {c : Console} {t : String} {m₁ m₂ x : List Piece} (main : Bool)
    (hnul : NulFree (c.s ++ t)) (he : c.emitted = joinText m₁) (hs : c.s = joinText m₂)
    (ht : t = joinText x) :
    ∃ n₁ n₂, n₁ ++ n₂ = m₁ ++ m₂ ++ x ∧ (c.put main t).emitted = joinText n₁ ∧
      (c.put main t).s = joinText n₂ ∧ NulFree (c.put main t).s := by
  unfold Console.put
  split
  · refine ⟨m₁ ++ m₂ ++ x, [], by simp, ?_, rfl, (by decide : NulFree "")⟩
    rw [cstr_of_nulFree hnul]
    simp only [he, hs, ht, joinText_append, String.append_assoc]
  · exact ⟨m₁, m₂ ++ x, by simp, he, by simp [hs, ht], hnul⟩

lemma Layout.put {c : Console} {h : List Piece} (hl : Layout c h) (main : Bool) {t : String}
    (ht : NulFree t) : Layout (c.put main t) (h ++ [.direct t]) := by
  obtain ⟨hs, hr, m₁, m₂, m₃, hi, h₁, h₂, h₃, hd⟩ := hl
  obtain ⟨n₁, n₂, hn, e₁, e₂, hs'⟩ :=
    put_split (x := [.direct t]) main (hs.append ht) h₁ h₂ (by simp [joinText, Piece.text])
  refine ⟨hs', by simpa using hr, n₁, n₂, m₃, ?_, e₁, e₂, by simpa using h₃, hd⟩
  rw [hn]
  exact hi.insert_direct hd t

lemma Layout.record {c : Console} {h : List Piece} (hl : Layout c h) {l : String}
    (hnl : NulFree l) : Layout (c.record l) (h ++ [.diag l]) := by
  obtain ⟨hs, hr, m₁, m₂, m₃, hi, h₁, h₂, h₃, hd⟩ := hl
  refine ⟨hs, hr.append hnl, m₁, m₂, m₃ ++ [.diag l], ?_, h₁, h₂, ?_, ?_⟩
  · simpa [List.append_assoc] using hi.snoc_diag l
  · simp [Console.record, h₃, joinText, Piece.text]
  · intro p hp
    rcases List.mem_append.1 hp with hp | hp
    · exact hd p hp
    · simp_all

/-- While `_err_stream` is being flushed: `_s` has no NUL character, and the emitted text and
`_s` are the two parts of one merge of the history `h`. -/
def Flushed (c : Console) (h : List Piece) : Prop :=
  NulFree c.s ∧ ∃ m₁ m₂ : List Piece, Interleaves (m₁ ++ m₂) h ∧ c.emitted = joinText m₁ ∧
    c.s = joinText m₂

/-- Handing `_err_stream` to `print` moves its lines, unchanged and in order, into `_s`. -/
lemma Layout.putErr {c : Console} {h : List Piece} (hl : Layout c h) (main : Bool) :
    Flushed (c.put main c.errStream) h := by
  obtain ⟨hs, hr, m₁, m₂, m₃, hi, h₁, h₂, h₃, -⟩ := hl
  obtain ⟨n₁, n₂, hn, e₁, e₂, hs'⟩ := put_split main (hs.append hr) h₁ h₂ h₃
  exact ⟨hs', n₁, n₂, hn ▸ hi, e₁, e₂⟩

/-- Clearing `_err_stream` after its lines reached `_s`. -/
lemma Flushed.clearErr {c : Console} {h : List Piece} (hf : Flushed c h) : Layout c.clearErr h := by
  obtain ⟨hs, m₁, m₂, hi, h₁, h₂⟩ := hf
  exact ⟨hs, (by decide : NulFree ""), m₁, m₂, [], by rwa [List.append_nil], h₁, h₂, rfl, by simp⟩

lemma Layout.flushErr {c : Console} {h : List Piece} (hl : Layout c h) (main : Bool) :
    Layout (c.flushErr main) h := by
  unfold Console.flushErr
  split
  · exact (hl.putErr main).clearErr
  · exact hl

lemma Layout.recordOpt {c : Console} {h : List Piece} (hl : Layout c h) {line : Option String}
    (hnl : ∀ l ∈ line, NulFree l) :
    Layout (c.recordOpt line) (h ++ line.toList.map .diag) := by
  cases line with
  | none => simpa [Console.recordOpt] using hl
  | some l => simpa [Console.recordOpt] using hl.record (hnl l rfl)

/-! ### One call keeps the invariant -/

/-- The line that a handler call writes into `_err_stream`: a handler that writes a file
writes none there when it can open the file. -/
def Handler.streamLine : Handler → ErrorLevel → String → String → Bool → Option String
  | .standard, type, msg, loc, _ => formatLine standardTag false type msg loc
  | .debug, type, msg, loc, _ => formatLine debugTag true type msg loc
  | .standardFile, type, msg, loc, opens =>
      if opens then none else formatLine standardTag false type msg loc
  | .debugFile, type, msg, loc, opens =>
      if opens then none else formatLine debugTag true type msg loc

/-- The texts that a call puts into the buffers, from the state it starts in. -/
def Op.pieces : Op → Console → List Piece
  | .print t, _ => [.direct t]
  | .handle h type msg loc _ opens, _ => (h.streamLine type msg loc opens).toList.map .diag
  | .deferOutput, _ => []
  | .doOutput, _ => []
  | .set _ p, _ => [.direct (renderBar p)]
  | .increment bar dp, c => [.direct (renderBar (c.bar bar + dp))]
  | .finalize _, _ => [.direct (renderBar 1), .direct "\n"]

/-- The texts given to a call have no NUL character. -/
def Op.NulFree : Op → Prop
  | .print t => Gdalcubes.NulFree t
  | .handle _ _ msg loc _ _ => Gdalcubes.NulFree msg ∧ Gdalcubes.NulFree loc
  | _ => True

lemma formatLine_nulFree {tag : ErrorLevel → Option String} (htag : ∀ t ∈ tag type, NulFree t)
    (w : Bool) {msg loc : String} (hm : NulFree msg) (hl : NulFree loc) :
    ∀ l ∈ formatLine tag w type msg loc, NulFree l := by
  have hw : NulFree (if w then whereStr loc else "") := by
    unfold whereStr
    split_ifs
    all_goals first | decide | exact (NulFree.append (by decide) hl).append (by decide)
  simp only [formatLine, Option.mem_def, Option.map_eq_some']
  rintro l ⟨t, ht, rfl⟩
  exact (((htag t ht).append hm).append hw).append (by decide)

lemma standardTag_nulFree (type : ErrorLevel) : ∀ t ∈ standardTag type, NulFree t := by
  cases type <;> simp [standardTag] <;> decide

lemma debugTag_nulFree (type : ErrorLevel) : ∀ t ∈ debugTag type, NulFree t := by
  cases type <;> simp [debugTag] <;> decide

lemma Layout.stream {c : Console} {h : List Piece} (hl : Layout c h) (main : Bool)
    {line : Option String} (hnl : ∀ l ∈ line, NulFree l) :
    Layout (c.stream main line) (h ++ line.toList.map .diag) := by
  unfold Console.stream
  split
  · exact hl.recordOpt hnl
  · exact (hl.recordOpt hnl).flushErr main

lemma Layout.set_ {c : Console} {h : List Piece} (hl : Layout c h) (main : Bool) (bar : Nat)
    (f : Float → Float) :
    Layout (((c.setDefer true).setP bar f).put main (renderBar (f (c.bar bar))))
      (h ++ [.direct (renderBar (f (c.bar bar)))]) :=
  (show Layout ((c.setDefer true).setP bar f) h from hl.of_eq rfl rfl rfl).put main
    (renderBar_nulFree _)

lemma Layout.setDefer {c : Console} {h : List Piece} (hl : Layout c h) (b : Bool) :
    Layout (c.setDefer b) h :=
  hl.of_eq rfl rfl rfl

lemma Layout.logOpt {c : Console} {h : List Piece} (hl : Layout c h) (line : Option String) :
    Layout (c.logOpt line) h := by
  cases line <;> exact hl.of_eq rfl rfl rfl

/-- One call, atomic on its thread, keeps the invariant and adds its texts to the history. -/
lemma Layout.run {c : Console} {h : List Piece} (hl : Layout c h) (main : Bool) (op : Op)
    (hop : op.NulFree) : Layout (op.run main c) (h ++ op.pieces c) := by
  cases op with
  | print t => exact hl.put main hop
  | handle hd type msg loc code opens =>
    obtain ⟨hm, hlo⟩ := hop
    have std := hl.stream main (formatLine_nulFree (standardTag_nulFree type) false hm hlo)
    have dbg := hl.stream main (formatLine_nulFree (debugTag_nulFree type) true hm hlo)
    cases hd
    · simpa [Op.pieces, Handler.streamLine] using std
    · simpa [Op.pieces, Handler.streamLine] using dbg
    · cases opens
      · simpa [Op.pieces, Handler.streamLine] using std
      · simpa [Op.pieces, Handler.streamLine] using hl.logOpt _
    · cases opens
      · simpa [Op.pieces, Handler.streamLine] using dbg
      · simpa [Op.pieces, Handler.streamLine] using hl.logOpt _
  | deferOutput => simpa [Op.pieces] using hl.setDefer true
  | doOutput => simpa [Op.pieces] using (hl.flushErr main).setDefer false
  | set bar p => simpa [Op.pieces] using hl.set_ main bar fun _ => p
  | increment bar dp => simpa [Op.pieces] using hl.set_ main bar (· + dp)
  | finalize bar =>
    simpa [Op.pieces] using
      (((hl.set_ main bar fun _ => 1).put main (t := "\n") (by decide)).flushErr main).setDefer
        false

/-! ### Whole sequences of calls -/

/-- The texts of a sequence of calls, in the order the calls made them. -/
def history (c : Console) : List (Bool × Op) → List Piece
  | [] => []
  | (m, op) :: rest => op.pieces c ++ history (op.run m c) rest

lemma Layout.runOps {c : Console} {h : List Piece} (hl : Layout c h) (calls : List (Bool × Op))
    (hnul : ∀ x ∈ calls, x.2.NulFree) : Layout (runOps c calls) (h ++ history c calls) := by
  induction calls generalizing c h with
  | nil => simpa [runOps, history] using hl
  | cons x calls ih =>
    have := ih (hl.run x.1 x.2 (hnul x (List.mem_cons_self _ _)))
      fun y hy => hnul y (List.mem_cons_of_mem _ hy)
    simpa [runOps, history, List.append_assoc] using this

lemma Act.apply_false_emitted (a : Act) (c : Console) : (a.apply false c).emitted = c.emitted := by
  cases a <;> simp [Console.put_false, Console.record, Console.clearErr, Console.setDefer,
    Console.setP, Console.log]

/-- Off the main thread, no code writes to the console. -/
lemma Code.run_false_emitted (k : Code) (c : Console) : (k.run false c).emitted = c.emitted := by
  induction k generalizing c with
  | ret => rfl
  | lock _ k ih => exact ih c
  | unlock _ k ih => exact ih c
  | act a k ih => rw [Code.run_act, ih, Act.apply_false_emitted]
  | branch b t e iht ihe => simp only [Code.run_branch]; split <;> simp [iht, ihe]

lemma Act.apply_emitted (main : Bool) (a : Act) (c : Console) :
    ∃ t, (a.apply main c).emitted = c.emitted ++ t := by
  have hput : ∀ t (c : Console), ∃ u, (c.put main t).emitted = c.emitted ++ u := by
    intro t c; unfold Console.put; split
    · exact ⟨_, rfl⟩
    · exact ⟨"", by simp⟩
  cases a <;> first | exact hput _ _ | exact ⟨"", by simp [Console.record, Console.clearErr,
    Console.setDefer, Console.setP, Console.log]⟩

/-- The console text only grows. -/
lemma Code.run_emitted (main : Bool) (k : Code) (c : Console) :
    ∃ t, (k.run main c).emitted = c.emitted ++ t := by
  induction k generalizing c with
  | ret => exact ⟨"", by simp⟩
  | lock _ k ih => exact ih c
  | unlock _ k ih => exact ih c
  | act a k ih =>
    obtain ⟨t, ht⟩ := Act.apply_emitted main a c
    obtain ⟨u, hu⟩ := ih (a.apply main c)
    exact ⟨t ++ u, by rw [Code.run_act, hu, ht, String.append_assoc]⟩
  | branch b t e iht ihe => simp only [Code.run_branch]; split <;> simp [iht, ihe]

lemma Console.flushErr_true_s {c : Console} (h : c.s = "") : (c.flushErr true).s = "" := by
  unfold Console.flushErr; split
  · simp [Console.clearErr]
  · exact h

/-- The console functions, each atomic on its thread, in any order and on any threads:
(1) a call off R's main thread leaves the console text as it is, and a call on it only adds to
it; (2) the console text, `r_stderr_buf::_s` and `error_handling_r::_err_stream` are always a
merge of the diagnostic lines in the order they were recorded and of the directly printed
texts in the order they were printed, each whole, none lost or duplicated; (3) when
`finalize` returns on the main thread, both buffers are empty and output is no longer
deferred, so that the console text is that whole merge.  The texts given to the calls have no
NUL character. -/
theorem console_calls_merged (calls : List (Bool × Op)) (hnul : ∀ x ∈ calls, x.2.NulFree) :
    (∀ (op : Op) (c : Console), (op.run false c).emitted = c.emitted) ∧
    (∀ (op : Op) (c : Console), ∃ t, (op.run true c).emitted = c.emitted ++ t) ∧
    Layout (runOps Console.init calls) (history Console.init calls) ∧
    ∀ bar, (runOps Console.init (calls ++ [(true, .finalize bar)])).s = "" ∧
      (runOps Console.init (calls ++ [(true, .finalize bar)])).errStream = "" ∧
      (runOps Console.init (calls ++ [(true, .finalize bar)])).defer = false ∧
      ∃ m, Interleaves m (history Console.init (calls ++ [(true, .finalize bar)])) ∧
        (runOps Console.init (calls ++ [(true, .finalize bar)])).emitted = joinText m := by
  refine ⟨fun op c => Code.run_false_emitted _ c, fun op c => Code.run_emitted true _ c,
    by simpa using Layout.init.runOps calls hnul, fun bar => ?_⟩
  have hl := Layout.init.runOps (calls ++ [(true, .finalize bar)]) fun x hx =>
    (List.mem_append.1 hx).elim (hnul x) fun hx => by
      simp only [List.mem_singleton] at hx; subst hx; trivial
  simp only [List.nil_append] at hl
  have hrun : runOps Console.init (calls ++ [(true, .finalize bar)]) =
      (Op.finalize bar).run true (runOps Console.init calls) := by
    simp only [runOps, List.foldl_append, List.foldl_cons, List.foldl_nil]
  have hs : (runOps Console.init (calls ++ [(true, .finalize bar)])).s = "" := by
    rw [hrun, Op.run_finalize, Console.setDefer_s]
    exact Console.flushErr_true_s (Console.put_true_s _ _)
  have hr : (runOps Console.init (calls ++ [(true, .finalize bar)])).errStream = "" := by
    rw [hrun, Op.run_finalize, Console.setDefer_errStream, Console.flushErr_errStream]
  refine ⟨hs, hr, by rw [hrun, Op.run_finalize, Console.setDefer_defer], ?_⟩
  obtain ⟨-, -, m₁, m₂, m₃, hi, h₁, h₂, h₃, -⟩ := hl
  exact ⟨_, hi, by simp [h₁, ← h₂, ← h₃, hs, hr]⟩

lemma console_calls_merged_two :
    (∀ x ∈ [(false, Op.print "x"), (true, .handle .standard .error "e" "" 0 false)],
        x.2.NulFree) ∧
      Layout
        (runOps Console.init
          [(false, Op.print "x"), (true, .handle .standard .error "e" "" 0 false)])
        (history Console.init
          [(false, Op.print "x"), (true, .handle .standard .error "e" "" 0 false)]) :=
  have h : ∀ x ∈ [(false, Op.print "x"), (true, .handle .standard .error "e" "" 0 false)],
      x.2.NulFree := by
    intro x hx
    simp only [List.mem_cons, List.mem_singleton, List.not_mem_nil, or_false] at hx
    rcases hx with rfl | rfl
    exacts [(by decide : NulFree "x"), ⟨by decide, by decide⟩]
  ⟨h, (console_calls_merged _ h).2.2.1⟩

lemma joinText_of_no_direct {m : List Piece} (h : m.filterMap Piece.directText? = []) :
    joinText m = joinText ((m.filterMap Piece.diagLine?).map .diag) := by
  induction m with
  | nil => rfl
  | cons p m ih =>
    cases p with
    | diag l => simp_all [joinText]
    | direct t => simp at h

/-- A message with a NUL character: `REprintf` writes its line only up to that character, and
the rest of the line is lost. -/
theorem console_nul_cuts :
    (runOps Console.init [(true, .handle .standard .error "a\x00b" "" 0 false)]).emitted =
        "[ERROR] a" ∧
      ¬ ∃ m, Interleaves m
          (history Console.init [(true, .handle .standard .error "a\x00b" "" 0 false)]) ∧
        (runOps Console.init [(true, .handle .standard .error "a\x00b" "" 0 false)]).emitted ++
          (runOps Console.init [(true, .handle .standard .error "a\x00b" "" 0 false)]).s ++
          (runOps Console.init [(true, .handle .standard .error "a\x00b" "" 0 false)]).errStream =
          joinText m := by
  refine ⟨by decide, ?_⟩
  rintro ⟨m, ⟨h₁, h₂⟩, h⟩
  rw [joinText_of_no_direct (h₂.trans (by decide)), h₁] at h
  revert h
  decide

end Gdalcubes
