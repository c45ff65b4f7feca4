import SnippetsLlvm.Library.Separated
import SnippetsLlvm.Misc.ToInt

/-!
# The integers of a command line

`test_err` hands every argument to `to_int`, prints the integers it gets on the standard output, one after
another, and queues the errors it gets; at the end the queue is logged on the standard error output.

* `testErr` — the function, as the two texts it writes;
* `testErr_eq` — every argument is printed or logged, in order;
* `testErr_reread` — **the integers printed can be read back, and the program prints them again when it is given
  them**; nothing is logged exactly when every argument denotes an `int`.
-/

namespace SnippetsLlvm.Misc

open SnippetsLlvm.Library

/-! ### The function -/

/-- `llvm::Error`: the errors it carries, in order; a success carries none. -/
abbrev Errors : Type := List StringError

/-- `llvm::joinErrors`. -/
def joinErrors (E1 E2 : Errors) : Errors := E1 ++ E2

/-- `llvm::logAllUnhandledErrors`: nothing for a success, otherwise the banner and a line for each error. -/
def logAllUnhandledErrors (E : Errors) (ErrorBanner : String) : String :=
  if E.isEmpty then "" else ErrorBanner ++ String.join (E.map fun e => e.message ++ "\n")

/-- What was printed and what was queued. -/
structure Progress where
  cout : String
  Errs : Errors

/-- One argument. -/
def parseArg (s : Progress) (arg : String) : Progress :=
  match toInt arg true with
  | .ok parsed_int => { s with cout := s.cout ++ (toString parsed_int ++ " ") }
  | .error e => { s with Errs := joinErrors s.Errs [e] }

/-- The texts on the two output streams. -/
structure Streams where
  cout : String
  errs : String
deriving DecidableEq, Repr

/-- **`test_err`.**  The first argument is the name of the program. -/
def testErr (argv : List String) : Streams :=
  let s := argv.tail.foldl parseArg ⟨"Ints: ", []⟩
  { cout := s.cout ++ "\n" ++ "\n"
    errs := logAllUnhandledErrors s.Errs "\nErrors:\n" }

/-! ### What is printed and what is logged -/

/-- The integers of the arguments that have one. -/
def accepted (args : List String) : List ℤ :=
  args.filterMap fun arg =>
    match toInt arg true with
    | .ok n => some n
    | .error _ => none

/-- The errors of the other ones. -/
def rejected (args : List String) : Errors :=
  args.filterMap fun arg =>
    match toInt arg true with
    | .ok _ => none
    | .error e => some e

/-- The integers as they are printed. -/
def printed (ns : List ℤ) : String := String.join (ns.map fun n => toString n ++ " ")

/-- The loop adds to both, whatever was there. -/
theorem foldl_parseArg (args : List String) (s : Progress) :
    args.foldl parseArg s = ⟨s.cout ++ printed (accepted args), s.Errs ++ rejected args⟩ := by
  induction args generalizing s with
  | nil => simp [accepted, rejected, printed]
  | cons arg args ih =>
    rw [List.foldl_cons, ih, parseArg, accepted, accepted, rejected, rejected, List.filterMap_cons,
      List.filterMap_cons]
    cases harg : toInt arg true with
    | ok n => simp [printed, String.append_assoc]
    | error e => simp [joinErrors]

/-- **Every argument is printed or logged**, in the order of the command line. -/
theorem testErr_eq (argv : List String) : testErr argv =
    ⟨"Ints: " ++ printed (accepted argv.tail) ++ "\n" ++ "\n",
      logAllUnhandledErrors (rejected argv.tail) "\nErrors:\n"⟩ := by
  rw [testErr, foldl_parseArg]
  rfl

theorem length_accepted_add_rejected (args : List String) :
    (accepted args).length + (rejected args).length = args.length := by
  induction args with
  | nil => rfl
  | cons arg args ih =>
    rw [accepted, rejected] at ih ⊢
    rw [List.filterMap_cons, List.filterMap_cons]
    cases toInt arg true with
    | ok n =>
      simp only [List.length_cons]
      omega
    | error e =>
      simp only [List.length_cons]
      omega

/-! ### Reading the integers back -/

/-- The words printed between the label and the line breaks. -/
def printedWords (text : String) : List String :=
  (terminatedWords ' ' (text.toList.drop "Ints: ".length)).map String.ofList

theorem mem_accepted {args : List String} {n : ℤ} : n ∈ accepted args ↔ ∃ arg ∈ args, toInt arg true = .ok n := by
  rw [accepted, List.mem_filterMap]
  refine exists_congr fun arg => and_congr_right fun _ => ?_
  cases toInt arg true with
  | ok m => simp
  | error e => simp

theorem rejected_eq_nil_iff {args : List String} :
    rejected args = [] ↔ ∀ arg ∈ args, ∃ n, toInt arg true = .ok n := by
  rw [rejected, List.filterMap_eq_nil_iff]
  refine forall₂_congr fun arg _ => ?_
  cases toInt arg true with
  | ok n => simp
  | error e => simp

/-- A decimal text has no space in it. -/
theorem notMem_toString (n : ℤ) : ' ' ∉ (toString n).toList := by
  have hdigits : ∀ m : ℕ, ' ' ∉ (Nat.repr m).toList := by
    intro m h
    rw [Nat.toList_repr] at h
    exact absurd (Nat.isDigit_of_mem_toDigits (by decide) (by decide) h) (by decide)
  cases n with
  | ofNat m => exact hdigits m
  | negSucc m =>
    show ' ' ∉ ("-" ++ Nat.repr (m + 1)).toList
    rw [String.toList_append, List.mem_append]
    exact not_or.mpr ⟨by decide, hdigits (m + 1)⟩

/-- An `int` is read back from its decimal text. -/
theorem toInt_toString {n : ℤ} (h : InRange n) : toInt (toString n) true = .ok n := by
  obtain ⟨hne, hrest, hn⟩ := denotes_iff.mp (denotes_toString n)
  exact toInt_eq_ok.mpr ⟨hne, fun _ => hrest, h, hn⟩

theorem inRange_of_accepted {args : List String} {n : ℤ} (h : n ∈ accepted args) : InRange n := by
  obtain ⟨arg, -, harg⟩ := mem_accepted.mp h
  exact (toInt_eq_ok.mp harg).2.2.1

/-- The words printed are the decimal texts of the integers. -/
theorem printedWords_testErr (argv : List String) :
    printedWords (testErr argv).cout = (accepted argv.tail).map toString := by
  have hchars : (testErr argv).cout.toList.drop "Ints: ".length =
      ((accepted argv.tail).map fun n => (toString n).toList).flatMap (· ++ [' ']) ++ ['\n', '\n'] := by
    have hprinted : (printed (accepted argv.tail)).toList =
        ((accepted argv.tail).map fun n => (toString n).toList).flatMap (· ++ [' ']) := by
      rw [printed, toList_join, List.flatMap_map, List.flatMap_map]
      exact List.flatMap_congr fun n _ => String.toList_append
    rw [testErr_eq]
    simp only [String.toList_append, hprinted, List.append_assoc]
    exact List.drop_left
  rw [printedWords, hchars, terminatedWords_append ?_ (by decide), List.map_map]
  · exact List.map_congr_left fun n _ => String.ofList_toList
  · intro w hw
    obtain ⟨n, -, rfl⟩ := List.mem_map.mp hw
    exact notMem_toString n

/-- What was printed is accepted as it was. -/
theorem accepted_map_toString {ns : List ℤ} (h : ∀ n ∈ ns, InRange n) :
    accepted (ns.map toString) = ns ∧ rejected (ns.map toString) = [] := by
  constructor
  · rw [accepted, List.filterMap_map]
    refine (List.filterMap_congr fun n hn => ?_).trans List.filterMap_some
    rw [Function.comp_apply, toInt_toString (h n hn)]
  · rw [rejected_eq_nil_iff, List.forall_mem_map]
    exact fun n hn => ⟨n, toInt_toString (h n hn)⟩

/-- Nothing is logged for a success only. -/
theorem logAllUnhandledErrors_eq_empty {E : Errors} {banner : String} (h : banner ≠ "") :
    logAllUnhandledErrors E banner = "" ↔ E = [] := by
  rw [logAllUnhandledErrors]
  cases E with
  | nil => simp
  | cons e E => simp [h]

/-- **What `test_err` prints can be read back**: the integers accepted stand on the standard output in order and each
of them is read back from its word; given these words the program prints the same and logs nothing.  It logs nothing
exactly when every argument denotes an `int`. -/
theorem testErr_reread (argv : List String) (name : String) :
    (accepted argv.tail).length + (rejected argv.tail).length = argv.length - 1 ∧
      (printedWords (testErr argv).cout).map (toInt · true) = (accepted argv.tail).map .ok ∧
      testErr (name :: printedWords (testErr argv).cout) = ⟨(testErr argv).cout, ""⟩ ∧
      ((testErr argv).errs = "" ↔ ∀ arg ∈ argv.tail, ∃ n, Denotes arg.toList n ∧ InRange n) := by
  have hrange : ∀ n ∈ accepted argv.tail, InRange n := fun n hn => inRange_of_accepted hn
  refine ⟨?_, ?_, ?_, ?_⟩
  · rw [length_accepted_add_rejected, List.length_tail]
  · rw [printedWords_testErr, List.map_map]
    exact List.map_congr_left fun n hn => toInt_toString (hrange n hn)
  · obtain ⟨haccepted, hrejected⟩ := accepted_map_toString hrange
    rw [printedWords_testErr, testErr_eq (name :: _), List.tail_cons, haccepted, hrejected, testErr_eq argv]
    rfl
  · have herrs : (testErr argv).errs = logAllUnhandledErrors (rejected argv.tail) "\nErrors:\n" := by
      rw [testErr_eq]
    rw [herrs, logAllUnhandledErrors_eq_empty (by decide), rejected_eq_nil_iff]
    refine forall₂_congr fun arg _ => exists_congr fun n => ?_
    rw [toInt_eq_ok, denotes_iff]
    tauto

end SnippetsLlvm.Misc
