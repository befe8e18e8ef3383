import Mathlib.Data.List.Infix
import Nauro.Client.CodexHooks

/-!
# The lines of a Codex hook read back

* `inspectNauroHook_render` — the entry for a command records the command on each platform.
-/

namespace Nauro
namespace Client
namespace CodexHooks

open Foundation Foundation.Json Nauro.Core

/-! ## The line for POSIX shells -/

/-- The line of the entry for a command. -/
def posixLine (absolute : Str → Bool) (command : Str) : Str :=
  (if absolute command then str "test -x " ++ ShellWords.quote shellAlphabet command
    else str "command -v " ++ ShellWords.quote shellAlphabet command ++ str " >/dev/null 2>&1") ++
    str " || exit 0; exec " ++ ShellWords.quote shellAlphabet command ++ str " " ++
      codexHookSubcommand

theorem writes_plain {word : String} (hne : str word ≠ [])
    (hplain : (word.toList.all fun c => !(" \t\r\n'\"\\".toList.contains c)) = true) :
    ShellWords.Writes shellAlphabet (str word) (str word) := by
  refine .plain hne fun p hp => ?_
  obtain ⟨c, hc, rfl⟩ := List.mem_map.mp hp
  have hnot := List.all_eq_true.mp hplain c hc
  rw [Bool.not_eq_true', List.contains_eq_mem, decide_eq_false_iff_not] at hnot
  have hmem : ∀ d ∈ " \t\r\n'\"\\".toList, c ≠ d := by
    rintro d hd rfl
    exact hnot hd
  refine ⟨?_, ?_, ?_, ?_⟩
  · rw [Bool.eq_false_iff]
    intro hblank
    have hin : CodePoint.scalar c ∈ [CodePoint.scalar ' ', .scalar '\t', .scalar '\r', .scalar '\n'] :=
      List.contains_iff_mem.mp hblank
    simp only [List.mem_cons, List.not_mem_nil, or_false, CodePoint.scalar.injEq] at hin
    rcases hin with rfl | rfl | rfl | rfl
    · exact hmem ' ' (by decide) rfl
    · exact hmem '\t' (by decide) rfl
    · exact hmem '\r' (by decide) rfl
    · exact hmem '\n' (by decide) rfl
  · intro heq
    exact hmem '\'' (by decide) (CodePoint.scalar.inj heq)
  · intro heq
    exact hmem '"' (by decide) (CodePoint.scalar.inj heq)
  · intro heq
    exact hmem '\\' (by decide) (CodePoint.scalar.inj heq)

/-- The words of the line. -/
def posixWords (absolute : Str → Bool) (command : Str) : List Str :=
  (if absolute command then [str "test", str "-x", command]
    else [str "command", str "-v", command, str ">/dev/null", str "2>&1"]) ++
    [str "||", str "exit", str "0;", str "exec", command, str "hook", str "codex-bootstrap"]

theorem split_posixLine (absolute : Str → Bool) (command : Str) :
    ShellWords.split shellAlphabet (posixLine absolute command) =
      some (posixWords absolute command) := by
  have hquoted : ShellWords.Writes shellAlphabet command (ShellWords.quote shellAlphabet command) :=
    .quoted command
  have hblank : shellAlphabet.blank (.scalar ' ') = true := by decide
  have hback : List.Forall₂ (ShellWords.Writes shellAlphabet)
      [str "||", str "exit", str "0;", str "exec", command, str "hook", str "codex-bootstrap"]
      [str "||", str "exit", str "0;", str "exec", ShellWords.quote shellAlphabet command,
        str "hook", str "codex-bootstrap"] :=
    .cons (writes_plain (by decide) (by decide)) (.cons (writes_plain (by decide) (by decide))
      (.cons (writes_plain (by decide) (by decide)) (.cons (writes_plain (by decide) (by decide))
        (.cons hquoted (.cons (writes_plain (by decide) (by decide))
          (.cons (writes_plain (by decide) (by decide)) .nil))))))
  unfold posixLine posixWords
  split_ifs with habsolute
  · have hall : List.Forall₂ (ShellWords.Writes shellAlphabet)
        ([str "test", str "-x", command] ++
          [str "||", str "exit", str "0;", str "exec", command, str "hook", str "codex-bootstrap"])
        ([str "test", str "-x", ShellWords.quote shellAlphabet command] ++
          [str "||", str "exit", str "0;", str "exec", ShellWords.quote shellAlphabet command,
            str "hook", str "codex-bootstrap"]) :=
      .cons (writes_plain (by decide) (by decide)) (.cons (writes_plain (by decide) (by decide))
        (.cons hquoted hback))
    refine Eq.trans (congrArg _ ?_) (ShellWords.split_line hblank hall)
    simp [List.intercalate, str, ofText, codexHookSubcommand]
  · have hall : List.Forall₂ (ShellWords.Writes shellAlphabet)
        ([str "command", str "-v", command, str ">/dev/null", str "2>&1"] ++
          [str "||", str "exit", str "0;", str "exec", command, str "hook", str "codex-bootstrap"])
        ([str "command", str "-v", ShellWords.quote shellAlphabet command, str ">/dev/null",
            str "2>&1"] ++
          [str "||", str "exit", str "0;", str "exec", ShellWords.quote shellAlphabet command,
            str "hook", str "codex-bootstrap"]) :=
      .cons (writes_plain (by decide) (by decide)) (.cons (writes_plain (by decide) (by decide))
        (.cons hquoted (.cons (writes_plain (by decide) (by decide))
          (.cons (writes_plain (by decide) (by decide)) hback))))
    refine Eq.trans (congrArg _ ?_) (ShellWords.split_line hblank hall)
    simp [List.intercalate, str, ofText, codexHookSubcommand]

/-- A word that is not followed by the second part of the subcommand is passed over. -/
theorem beforeSubcommand_cons {previous : Option Str} {token next : Str} {rest : List Str}
    (hnext : next ≠ str "codex-bootstrap") :
    beforeSubcommand previous (token :: next :: rest) =
      beforeSubcommand (some token) (next :: rest) := by
  rw [beforeSubcommand]
  exact if_neg fun h => hnext (Option.some.inj h.2)

theorem beforeSubcommand_ne {previous : Option Str} {token : Str} {rest : List Str}
    (htoken : token ≠ str "hook") :
    beforeSubcommand previous (token :: rest) = beforeSubcommand (some token) rest := by
  rw [beforeSubcommand]
  exact if_neg fun h => htoken h.1

theorem extractPosixExecutable_posixLine (absolute : Str → Bool) (command : Str) :
    extractPosixExecutable (posixLine absolute command) = some command := by
  have hback : ∀ previous, beforeSubcommand previous
      [str "||", str "exit", str "0;", str "exec", command, str "hook", str "codex-bootstrap"] =
        some command := by
    intro previous
    rw [beforeSubcommand_ne (by decide), beforeSubcommand_ne (by decide),
      beforeSubcommand_ne (by decide), beforeSubcommand_ne (by decide),
      beforeSubcommand_cons (by decide), beforeSubcommand]
    exact if_pos ⟨rfl, rfl⟩
  unfold extractPosixExecutable
  rw [split_posixLine]
  show beforeSubcommand none (posixWords absolute command) = _
  unfold posixWords
  split_ifs with habsolute
  · show beforeSubcommand none (str "test" :: str "-x" :: command :: str "||" :: _) = _
    rw [beforeSubcommand_ne (by decide), beforeSubcommand_ne (by decide),
      beforeSubcommand_cons (by decide)]
    exact hback _
  · show beforeSubcommand none (str "command" :: str "-v" :: command :: str ">/dev/null" ::
      str "2>&1" :: _) = _
    rw [beforeSubcommand_ne (by decide), beforeSubcommand_ne (by decide),
      beforeSubcommand_cons (by decide), beforeSubcommand_ne (by decide),
      beforeSubcommand_ne (by decide)]
    exact hback _

/-! ## Doubled quotes -/

theorem double_cons (quote p : CodePoint) (text : Str) :
    double quote (p :: text) = (if p = quote then [quote, quote] else [p]) ++ double quote text :=
  List.flatMap_cons

theorem halve_double (quote : CodePoint) (text : Str) : halve quote (double quote text) = text := by
  induction text with
  | nil => rfl
  | cons p text ih =>
      rw [double_cons]
      split_ifs with hp
      · show halve quote (quote :: quote :: double quote text) = _
        rw [halve, if_pos ⟨rfl, rfl⟩, ih, hp]
      · cases hdouble : double quote text with
        | nil =>
            rw [hdouble] at ih
            rw [← ih]
            rfl
        | cons p' rest =>
            show halve quote (p :: p' :: rest) = _
            rw [halve, if_neg fun h => hp h.1, ← hdouble, ih]

theorem double_concat (quote p : CodePoint) (text : Str) :
    double quote (text ++ [p]) = double quote text ++ if p = quote then [quote, quote] else [p] := by
  rw [double, List.flatMap_append, List.flatMap_singleton]
  rfl

theorem getElem?_length_append {α : Type} (front : List α) (a : α) (back : List α) :
    (front ++ a :: back)[front.length]? = some a := by
  rw [List.getElem?_append_right le_rfl, Nat.sub_self]
  rfl

/-- Going back over doubled quotes ends at the quote that opens the token. -/
theorem quotedTokenStartBelow_double {quote : CodePoint} {front : Str}
    (hfront : front.getLast? ≠ some quote) (text back : Str) :
    quotedTokenStartBelow (front ++ quote :: (double quote text ++ back)) quote
      (front.length + 1 + (double quote text).length) = some front.length := by
  induction text using List.reverseRecOn generalizing back with
  | nil =>
      show quotedTokenStartBelow (front ++ quote :: back) quote (front.length + 1) = _
      cases hlast : front using List.reverseRecOn with
      | nil => exact if_pos rfl
      | append_singleton init last =>
          rw [hlast, List.getLast?_concat] at hfront
          rw [List.length_append, List.length_singleton]
          have hquote : (init ++ [last] ++ quote :: back)[init.length + 1]? = some quote := by
            have h := getElem?_length_append (init ++ [last]) quote back
            rwa [List.length_append, List.length_singleton] at h
          have hprevious : (init ++ [last] ++ quote :: back)[init.length]? = some last := by
            rw [List.append_assoc]
            exact getElem?_length_append init last _
          rw [quotedTokenStartBelow, hquote, hprevious, if_neg (not_not.mpr rfl), if_neg hfront]
  | append_singleton text p ih =>
      have hlength : ∀ more : Str, (front ++ quote :: double quote text).length =
          front.length + 1 + (double quote text).length := by
        intro _
        rw [List.length_append, List.length_cons]
        omega
      rw [double_concat]
      split_ifs with hp
      · have hvalue : front ++ quote :: (double quote text ++ [quote, quote] ++ back) =
            front ++ quote :: (double quote text ++ quote :: quote :: back) := by
          rw [List.append_assoc]
          rfl
        have hfirst : (front ++ quote :: (double quote text ++ quote :: quote :: back))[
            front.length + 1 + (double quote text).length]? = some quote := by
          have h := getElem?_length_append (front ++ quote :: double quote text) quote
            (quote :: back)
          rwa [hlength [], List.append_assoc] at h
        have hsecond : (front ++ quote :: (double quote text ++ quote :: quote :: back))[
            front.length + 1 + (double quote text).length + 1]? = some quote := by
          have h := getElem?_length_append (front ++ quote :: double quote text ++ [quote]) quote back
          rw [List.length_append, hlength [], List.length_singleton] at h
          simpa only [List.append_assoc, List.cons_append, List.nil_append] using h
        rw [hvalue, List.length_append]
        show quotedTokenStartBelow _ quote (front.length + 1 + (double quote text).length + 2) = _
        rw [quotedTokenStartBelow, hsecond, hfirst, if_neg (not_not.mpr rfl), if_pos rfl]
        exact ih _
      · have hvalue : front ++ quote :: (double quote text ++ [p] ++ back) =
            front ++ quote :: (double quote text ++ p :: back) := by
          rw [List.append_assoc]
          rfl
        have hhere : (front ++ quote :: (double quote text ++ p :: back))[
            front.length + (double quote text).length + 1]? = some p := by
          have h := getElem?_length_append (front ++ quote :: double quote text) p back
          rw [hlength [], List.append_assoc] at h
          rwa [Nat.add_right_comm] at h
        have hne : ¬ some p = some quote := fun h => hp (Option.some.inj h)
        rw [hvalue, List.length_append, List.length_singleton, Nat.add_right_comm front.length 1]
        show quotedTokenStartBelow _ quote (front.length + (double quote text).length + 2) = _
        rw [quotedTokenStartBelow, hhere, if_pos hne, Nat.add_right_comm front.length]
        exact ih _

/-! ## The line for PowerShell -/

/-- What stands before the command that is run. -/
def windowsFront (absolute : Str → Bool) (command : Str) : Str :=
  str "powershell.exe -NoLogo -NoProfile -NonInteractive -Command \"" ++
    ((if absolute command then
        str "if (Test-Path -LiteralPath " ++ powershellQuote command ++ str " -PathType Leaf) "
      else str "if (Get-Command " ++ powershellQuote command ++ str " -ErrorAction SilentlyContinue) ") ++
      str "\x7b & ")

/-- What stands after the command that is run, from the blank on. -/
def windowsBack : Str :=
  str " hook codex-bootstrap \x7d; exit 0\""

def windowsLine (absolute : Str → Bool) (command : Str) : Str :=
  windowsFront absolute command ++ powershellQuote command ++ windowsBack

theorem rfind?_append {needle back : Str} (hback : rfind? needle back = some 0) (front : Str) :
    rfind? needle (front ++ back) = some front.length := by
  induction front with
  | nil => exact hback
  | cons p front ih => rw [List.cons_append, rfind?, ih, List.length_cons]

theorem rstripStr_of_getLast {text : Str} {last : CodePoint} (hlast : text.getLast? = some last)
    (hspace : isSpacePoint last = false) : rstripStr text = text := by
  refine Trim.rdropWhile_eq_self fun p hp => ?_
  rw [hlast] at hp
  rw [← Option.some.inj hp, hspace]

theorem lastWindowsToken_quoted {front : Str} (hfront : front.getLast? ≠ some singleQuote)
    (command : Str) :
    lastWindowsToken (front ++ powershellQuote command) =
      some (rstripStr front, powershellQuote command) := by
  have hlast : (front ++ powershellQuote command).getLast? = some singleQuote := by
    rw [powershellQuote, ← List.append_assoc, List.getLast?_concat]
  have hstart : quotedTokenStart (front ++ powershellQuote command) singleQuote =
      some front.length := by
    have h := quotedTokenStartBelow_double hfront command [singleQuote]
    have hlength : (front ++ powershellQuote command).length - 1 =
        front.length + 1 + (double singleQuote command).length := by
      simp only [powershellQuote, List.length_append, List.length_cons, List.length_nil]
      omega
    rw [quotedTokenStart, hlength]
    exact h
  unfold lastWindowsToken
  simp only [rstripStr_of_getLast hlast (by decide), hlast, true_or, if_true, hstart,
    Option.map_some, List.take_left, List.drop_left]

theorem windowsFront_eq (absolute : Str → Bool) (command : Str) :
    ∃ before, windowsFront absolute command = before ++ str "& " :=
  ⟨_, by rw [windowsFront, ← List.append_assoc, show str "\x7b & " = str "\x7b " ++ str "& " from rfl,
    ← List.append_assoc]⟩

theorem extractWindowsExecutable_windowsLine (absolute : Str → Bool) (command : Str) :
    extractWindowsExecutable (windowsLine absolute command) = some command := by
  obtain ⟨before, hbefore⟩ := windowsFront_eq absolute command
  have hmarker : rfind? (str " " ++ codexHookSubcommand) windowsBack = some 0 := by decide +kernel
  have hlast : (windowsFront absolute command).getLast? ≠ some singleQuote := by
    rw [hbefore, show str "& " = [.scalar '&'] ++ [.scalar ' '] from rfl, ← List.append_assoc,
      List.getLast?_concat]
    decide
  have hleading : rstripStr (windowsFront absolute command) = before ++ [.scalar '&'] := by
    rw [hbefore, show str "& " = [.scalar '&'] ++ [.scalar ' '] from rfl, ← List.append_assoc,
      rstripStr, List.rdropWhile_concat_pos _ _ _ (by decide)]
    exact rstripStr_of_getLast List.getLast?_concat (by decide)
  have hbetween : isBetween singleQuote (powershellQuote command) = true := by
    unfold isBetween powershellQuote
    rw [List.getLast?_concat]
    simp only [List.length_append, List.length_cons, List.length_nil, List.cons_append,
      List.head?_cons, decide_true, Bool.and_true, decide_eq_true_eq]
    omega
  have hinner : ((powershellQuote command).drop 1).dropLast = double singleQuote command := by
    show (double singleQuote command ++ [singleQuote]).dropLast = _
    exact List.dropLast_concat
  unfold extractWindowsExecutable
  rw [windowsLine, rfind?_append hmarker]
  simp only [List.take_left, lastWindowsToken_quoted hlast, hleading, List.getLast?_concat]
  have hne : before ++ [CodePoint.scalar '&'] ≠ [] := List.concat_ne_nil _ _
  rw [if_neg fun h => h.2 rfl, if_pos ⟨hne, hbetween⟩, hinner, halve_double]

/-! ## The entry -/

theorem renderNauroHook_eq (absolute : Str → Bool) (command : Str) :
    renderNauroHook absolute command = .object
      [(str "type", .string (str "command")), (commandKey, .string (posixLine absolute command)),
        (commandWindowsKey, .string (windowsLine absolute command)), (str "timeout", .int 10),
        (str "statusMessage", .string (str "Loading Nauro project context"))] := by
  have hwindows : windowsLine absolute command =
      str "powershell.exe -NoLogo -NoProfile -NonInteractive -Command \"" ++
        ((if absolute command then
            str "if (Test-Path -LiteralPath " ++ powershellQuote command ++ str " -PathType Leaf) "
          else
            str "if (Get-Command " ++ powershellQuote command ++
              str " -ErrorAction SilentlyContinue) ") ++ str "\x7b & " ++
            powershellQuote command ++ str " " ++ codexHookSubcommand ++ str " \x7d; exit 0") ++
          str "\"" := by
    rw [windowsLine, windowsFront, show windowsBack =
      str " " ++ (codexHookSubcommand ++ (str " \x7d; exit 0" ++ str "\"")) from rfl]
    simp only [List.append_assoc]
  rw [hwindows]
  rfl

theorem containsStr_append (needle front back : Str) :
    containsStr needle (front ++ (needle ++ back)) = true :=
  List.any_eq_true.mpr ⟨needle ++ back, (List.mem_tails _ _).mpr (List.suffix_append _ _),
    List.isPrefixOf_iff_prefix.mpr (List.prefix_append _ _)⟩

theorem contains_posixLine (absolute : Str → Bool) (command : Str) :
    containsStr codexHookSubcommand (posixLine absolute command) = true := by
  have h := containsStr_append codexHookSubcommand ((if absolute command then
      str "test -x " ++ ShellWords.quote shellAlphabet command
    else str "command -v " ++ ShellWords.quote shellAlphabet command ++ str " >/dev/null 2>&1") ++
    str " || exit 0; exec " ++ ShellWords.quote shellAlphabet command ++ str " ") []
  rwa [List.append_nil] at h

theorem contains_windowsLine (absolute : Str → Bool) (command : Str) :
    containsStr codexHookSubcommand (windowsLine absolute command) = true := by
  rw [windowsLine, show windowsBack =
    str " " ++ (codexHookSubcommand ++ str " \x7d; exit 0\"") from rfl, ← List.append_assoc]
  exact containsStr_append _ _ _

/-- The entry for a command is one of Nauro. -/
theorem isNauroHook_render (absolute : Str → Bool) (command : Str) :
    isNauroHook (renderNauroHook absolute command) = true := by
  rw [renderNauroHook_eq]
  unfold isNauroHook
  simp only [List.any_cons]
  show (containsStr codexHookSubcommand (posixLine absolute command) || _) = true
  rw [contains_posixLine, Bool.true_or]

/-- The entry for a command records it, for each platform. -/
theorem inspectNauroHook_render (windows : Bool) (absolute : Str → Bool) (command : Str) :
    inspectNauroHook windows (renderNauroHook absolute command) = some (some command) := by
  rw [renderNauroHook_eq]
  unfold inspectNauroHook
  cases windows with
  | true =>
      show (if containsStr codexHookSubcommand (windowsLine absolute command) then
        some (extractWindowsExecutable (windowsLine absolute command)) else none) = _
      rw [contains_windowsLine, if_pos rfl, extractWindowsExecutable_windowsLine]
  | false =>
      have hne : posixLine absolute command ≠ [] := List.append_ne_nil_of_right_ne_nil _ (by decide)
      have hline : commandForPlatform false (.object
          [(str "type", .string (str "command")), (commandKey, .string (posixLine absolute command)),
            (commandWindowsKey, .string (windowsLine absolute command)), (str "timeout", .int 10),
            (str "statusMessage", .string (str "Loading Nauro project context"))]) =
          some (posixLine absolute command) := if_pos hne
      rw [hline]
      show (if containsStr codexHookSubcommand (posixLine absolute command) then
        some (extractPosixExecutable (posixLine absolute command)) else none) = _
      rw [contains_posixLine, if_pos rfl, extractPosixExecutable_posixLine]

end CodexHooks
end Client
end Nauro
