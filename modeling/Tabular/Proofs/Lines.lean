import Mathlib.Data.List.Basic
import Mathlib.Data.List.Induction
import Tabular.Log.Console

/-! The text of a console as a function of the calls that were made to it. The first initialization
decides the color of all lines, and the last one before a record decides whether the record has a
line. `Console.Follows` says what a console is after calls, and every call keeps it. -/

namespace Tabular.Log

/-- A call to a console: it initializes the console with settings, or it writes a record. -/
inductive Call where
  | init (config : Config)
  | record (r : Record)
  deriving DecidableEq, Repr

namespace Call

/-- The settings of an initialization. -/
def config? : Call → Option Config
  | init config => some config
  | record _ => none

/-- The record that is to be written. -/
def record? : Call → Option Record
  | init _ => none
  | record r => some r

end Call

/-- Calls to a console, one after another. -/
abbrev Calls := List Call

namespace Calls

/-- The settings of the initializations in order. -/
def configs (calls : Calls) : List Config := calls.filterMap Call.config?

/-- Whether a record that comes after the calls has a line: the console has been initialized, and
the last time with a threshold that allows the record's level. -/
def shows (calls : Calls) (level : Level) : Bool :=
  calls.configs.getLast?.any (·.threshold.allows level)

/-- The records that have a line, in order. Each is judged by the calls before it. -/
def shown (calls : Calls) : List Record :=
  calls.zipIdx.filterMap fun p => p.1.record?.filter fun r => shows (calls.take p.2) r.level

/-- The lines of the records that have one, colored as the first initialization says. -/
def text (calls : Calls) : String :=
  calls.configs.head?.elim "" fun first =>
    String.join (calls.shown.map (Logger.line ⟨first.coloredLogs⟩))

theorem configs_concat_init (calls : Calls) (config : Config) :
    configs (calls ++ [.init config]) = calls.configs ++ [config] :=
  List.filterMap_append

theorem configs_concat_record (calls : Calls) (r : Record) :
    configs (calls ++ [.record r]) = calls.configs :=
  List.filterMap_append.trans (List.append_nil _)

theorem shown_concat (calls : Calls) (call : Call) : shown (calls ++ [call]) =
    calls.shown ++ (call.record?.filter fun r => calls.shows r.level).toList := by
  have hbefore : ∀ p ∈ calls.zipIdx, (calls ++ [call]).take p.2 = calls.take p.2 := by
    intro p hp
    have hlt := (List.getElem?_eq_some_iff.mp (List.mem_zipIdx_iff_getElem?.mp hp)).1
    exact List.take_append_of_le_length (Nat.le_of_lt hlt)
  rw [shown, List.zipIdx_append, List.filterMap_append, Nat.zero_add, List.zipIdx_singleton,
    List.filterMap_cons, List.filterMap_nil, List.take_left]
  refine congrArg₂ (· ++ ·) (List.filterMap_congr fun p hp => ?_) ?_
  · simp only [hbefore p hp]
  · cases call.record?.filter fun r => calls.shows r.level <;> rfl

theorem shown_concat_init (calls : Calls) (config : Config) :
    shown (calls ++ [.init config]) = calls.shown :=
  (calls.shown_concat (.init config)).trans (List.append_nil _)

theorem shown_concat_record (calls : Calls) (r : Record) : shown (calls ++ [.record r]) =
    calls.shown ++ if calls.shows r.level then [r] else [] := by
  rw [shown_concat]
  cases hshows : calls.shows r.level <;> simp [Call.record?, hshows]

/-- Before the first initialization no record has a line. -/
theorem shown_eq_nil {calls : Calls} (h : calls.configs = []) : calls.shown = [] := by
  refine List.filterMap_eq_nil_iff.mpr fun p _ => ?_
  have hnone : configs (calls.take p.2) = [] :=
    List.eq_nil_of_sublist_nil (h ▸ (List.take_sublist p.2 calls).filterMap Call.config?)
  simp [shows, hnone]

end Calls

/-- Padding goes after the string. -/
theorem padded_eq_append (width : Nat) (s : String) :
    padded width s = s ++ String.ofList (List.replicate (width - s.length) ' ') := by
  rw [padded, String.pushn]
  generalize width - s.length = n
  induction n with
  | zero => simp [Nat.repeat]
  | succ n ih =>
    rw [Nat.repeat, ih, ← String.toList_inj, List.replicate_succ']
    simp

/-- A line begins with the mark of its record's level, and it ends in the record's text and a
newline. -/
theorem Logger.exists_line_eq (l : Logger) (r : Record) :
    ∃ place, l.line r = l.mark r.level ++ place ++ r.text ++ "\n" := by
  refine ⟨String.ofList (List.replicate (8 - (l.mark r.level).length) ' ') ++ r.file.getD "" ++
    ":" ++ padded 4 (r.line.getD 0).repr ++ " ", ?_⟩
  simp only [line, padded_eq_append 8, String.append_assoc]

/-- A line tells by its first character whether it is colored. -/
theorem Logger.head?_line (l : Logger) (r : Record) :
    (l.line r).toList.head? = some '\x1b' ↔ l.colored = true := by
  obtain ⟨place, hline⟩ := l.exists_line_eq r
  rw [hline]
  obtain ⟨colored⟩ := l
  cases colored <;> simp [mark]

/-- The name of a record's level begins behind the brace of the mark. -/
theorem Logger.getElem?_line (l : Logger) (r : Record) :
    (l.line r).toList[if l.colored then 8 else 1]? = r.level.name.toList.head? := by
  obtain ⟨place, hline⟩ := l.exists_line_eq r
  rw [hline]
  obtain ⟨colored⟩ := l
  cases colored <;> cases r.level <;> simp [mark, color, Level.name]

theorem Level.eq_of_head?_name {level level' : Level}
    (h : level.name.toList.head? = level'.name.toList.head?) : level = level' := by
  revert h
  cases level <;> cases level' <;> decide

/-- A line tells the logger that wrote it and the level of its record. -/
theorem Logger.eq_of_line_eq {l l' : Logger} {r r' : Record} (h : l.line r = l'.line r') :
    l = l' ∧ r.level = r'.level := by
  have hcolored : l.colored = l'.colored := by
    rw [Bool.eq_iff_iff, ← l.head?_line r, h, l'.head?_line r']
  obtain rfl : l = l' := congrArg Logger.mk hcolored
  refine ⟨rfl, Level.eq_of_head?_name ?_⟩
  rw [← l.getElem?_line r, h, l.getElem?_line r']

namespace Console

variable {c : Console} {calls : Calls}

/-- The console after a call. -/
def call (c : Console) : Call → Console
  | .init config => (c.init config).2
  | .record r => c.write r

/-- A new console after calls. -/
def after (calls : Calls) : Console := calls.foldl call {}

/-- The console is what calls make of a new one. -/
structure Follows (c : Console) (calls : Calls) : Prop where
  threshold : c.threshold = calls.configs.getLast?.elim .off (·.threshold)
  installed : c.installed = calls.configs.head?.map fun first => ⟨first.coloredLogs⟩
  own : c.own = c.installed
  output : c.output = calls.text

theorem Follows.enabled (h : c.Follows calls) (level : Level) :
    c.enabled level = calls.shows level := by
  rw [Console.enabled, h.threshold, Calls.shows]
  cases calls.configs.getLast? <;> rfl

theorem init_first (hown : c.own = none) (hinstalled : c.installed = none) (config : Config) :
    c.init config = (true, { c with
      threshold := config.threshold,
      installed := some ⟨config.coloredLogs⟩,
      own := some ⟨config.coloredLogs⟩ }) := by
  simp [init, install?, hown, hinstalled]

theorem init_again {l : Logger} (hown : c.own = some l) (config : Config) :
    c.init config = (true, { c with threshold := config.threshold }) := by
  simp [init, hown]

/-- An initialization succeeds and sets the threshold. It installs a logger if it is the first. -/
theorem Follows.init (h : c.Follows calls) (config : Config) :
    (c.init config).1 = true ∧ (c.init config).2.Follows (calls ++ [.init config]) := by
  have hconfigs := calls.configs_concat_init config
  have hshown := calls.shown_concat_init config
  have hlast : (calls.configs ++ [config]).getLast? = some config := List.getLast?_concat
  have hinstalled := h.installed
  cases hhead : calls.configs.head? with
  | none =>
    have hnil : calls.configs = [] := List.head?_eq_none_iff.mp hhead
    rw [hhead] at hinstalled
    rw [init_first (h.own.trans hinstalled) hinstalled]
    refine ⟨rfl, ?_, ?_, rfl, ?_⟩
    · rw [hconfigs, hlast]
      rfl
    · rw [hconfigs, hnil]
      rfl
    · -- nothing has been written before, and an initialization writes nothing
      rw [h.output, Calls.text, Calls.text, hconfigs, hshown, Calls.shown_eq_nil hnil, hnil]
      rfl
  | some first =>
    have hfirst : (calls.configs ++ [config]).head? = calls.configs.head? := by
      rw [List.head?_append, hhead]
      rfl
    rw [hhead] at hinstalled
    rw [init_again (h.own.trans hinstalled)]
    refine ⟨rfl, ?_, ?_, h.own, ?_⟩
    · rw [hconfigs, hlast]
      rfl
    · rw [hconfigs, hfirst, h.installed]
    · rw [h.output, Calls.text, Calls.text, hconfigs, hshown, hfirst]

theorem output_write (h : c.Follows calls) (r : Record) :
    (c.write r).output = Calls.text (calls ++ [.record r]) := by
  have hinstalled := h.installed
  rw [Calls.text, calls.configs_concat_record, calls.shown_concat_record]
  cases hhead : calls.configs.head? with
  | none =>
    rw [hhead] at hinstalled
    simp [write, hinstalled, h.output, Calls.text, hhead]
  | some first =>
    rw [hhead] at hinstalled
    cases hshows : calls.shows r.level <;>
      simp [write, hinstalled, h.enabled, hshows, h.output, Calls.text, hhead]

theorem Follows.write (h : c.Follows calls) (r : Record) :
    (c.write r).Follows (calls ++ [.record r]) := by
  have hconfigs := calls.configs_concat_record r
  have hsame : (c.write r).threshold = c.threshold ∧ (c.write r).installed = c.installed ∧
      (c.write r).own = c.own := by
    unfold Console.write
    split
    · split <;> exact ⟨rfl, rfl, rfl⟩
    · exact ⟨rfl, rfl, rfl⟩
  obtain ⟨hthreshold, hinstalled, hown⟩ := hsame
  refine ⟨?_, ?_, ?_, output_write h r⟩
  · rw [hthreshold, h.threshold, hconfigs]
  · rw [hinstalled, h.installed, hconfigs]
  · rw [hown, h.own, hinstalled]

/-- A console stays what the calls make of it. -/
theorem follows_after (calls : Calls) : (after calls).Follows calls := by
  induction calls using List.reverseRecOn with
  | nil => exact ⟨rfl, rfl, rfl, rfl⟩
  | append_singleton calls call ih =>
    rw [after, List.foldl_append]
    cases call with
    | init config => exact (ih.init config).2
    | record r => exact ih.write r

theorem after_take_succ {n : Nat} {call : Call} (h : calls[n]? = some call) :
    after (calls.take (n + 1)) = (after (calls.take n)).call call := by
  rw [List.take_add_one, h, Option.toList_some, after, List.foldl_append]
  rfl

/-- The text that calls leave on a new console is one line for each record that comes after an
initialization, the last of which before it has a threshold that allows the record's level. The
lines stand in the order of the calls and have the color that the first initialization of all says.
Before each call the levels of the records that would have a line are those that are enabled, and
each initialization succeeds and leaves its own threshold. A line begins with the mark of its
record's level, ends in the record's text and a newline, and shows its color and the level. -/
theorem output_after (calls : Calls) :
    (after calls).output = calls.configs.head?.elim "" (fun first =>
      String.join (calls.shown.map (Logger.line ⟨first.coloredLogs⟩))) ∧
    (∀ n level, (after (calls.take n)).enabled level =
      (Calls.configs (calls.take n)).getLast?.any (·.threshold.allows level)) ∧
    (∀ n config, calls[n]? = some (.init config) →
      ((after (calls.take n)).init config).1 = true ∧
        (after (calls.take (n + 1))).threshold = config.threshold) ∧
    (∀ (l : Logger) (r : Record),
      ∃ place, l.line r = l.mark r.level ++ place ++ r.text ++ "\n") ∧
    ∀ (l l' : Logger) (r r' : Record), l.line r = l'.line r' →
      l.colored = l'.colored ∧ r.level = r'.level := by
  refine ⟨(follows_after calls).output, fun n level => ?_, fun n config hn => ?_,
    Logger.exists_line_eq, fun l l' r r' h => ?_⟩
  · exact (follows_after (calls.take n)).enabled level
  · obtain ⟨hok, hnext⟩ := (follows_after (calls.take n)).init config
    refine ⟨hok, ?_⟩
    rw [after_take_succ hn]
    refine hnext.threshold.trans ?_
    rw [Calls.configs_concat_init, List.getLast?_concat]
    rfl
  · obtain ⟨hlogger, hlevel⟩ := Logger.eq_of_line_eq h
    exact ⟨congrArg Logger.colored hlogger, hlevel⟩

/-- The color stays that of the first initialization, and the level is turned off and on again. -/
example :
    let write (level : Level) : Call := .record ⟨level, level.name, none, none⟩
    let init (threshold : Threshold) (colored : Bool) : Call :=
      .init { threshold, coloredLogs := colored }
    let calls : Calls := [write .error, init (.upTo .info) false, write .debug, write .info,
      init .off true, write .error, init (.upTo .debug) true, write .debug]
    (after calls).output = "{INFO}  :0    INFO\n{DEBUG} :0    DEBUG\n" := by
  decide +kernel

end Console

end Tabular.Log
