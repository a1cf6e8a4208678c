import TaskWrappers.Proofs.ConstantExpr.Written
import TaskWrappers.Proofs.Naming
import TaskWrappers.Proofs.Wrapper.Layout

/-!
# The calls that wrappers make

A wrapper calls its task by a string, the first argument of its call (`Member.keyedBy_memberText`).
The task's name can be a method's, so it stands in the string as it is and the string is a constant
expression for it in every scope (`Model.constantValue_key`). What leads up to the call is laid out
anew, but that changes no more than the white space in it, and so no other string can be the first
argument of the same call (`WrapperCall.KeyedBy.unique`).

Each member has a place of its own in the text of the file, behind what opens the class and the
members in front of it (`Plan.text_eq`).
-/

namespace TaskWrappers

open Text

/-- Whether all of a text is one string as constant expressions have them. -/
def ConstantToken.IsString (text : String) : Prop :=
  ∃ value, string? text.toList = some (some (value, []))

theorem Member.toList_key (n : String) : (key n).toList = '"' :: (n.toList ++ ['"']) := by
  rw [key, String.toList_append, String.toList_append]
  rfl

section Key

variable {n : String} (hn : isName n = true)
include hn

theorem solid_key : Plan.Solid (Member.key n).toList := by
  have hnot {c : Char} (hmark : c ≠ '"') (hc : isNameRest c = false) :
      c ∉ '"' :: (n.toList ++ ['"']) := by
    intro h
    rcases List.mem_cons.1 h with h | h
    · exact hmark h
    · rcases List.mem_append.1 h with h | h
      · exact not_mem_of_isName hn hc h
      · exact hmark (List.mem_singleton.1 h)
  rw [Member.toList_key]
  exact ⟨nofun, hnot (by decide) (by decide), hnot (by decide) (by decide)⟩

/-- The key of a task is its name as a plain string, since no character of a name has a meaning of
its own there. -/
theorem Member.literal_key : ConstantToken.Literal n.toList (key n).toList := by
  have hspelled : List.Forall₂ (ConstantToken.Spelled false) n.toList (n.toList.map ([·])) := by
    rw [List.forall₂_map_right_iff, List.forall₂_same]
    intro c hc
    have hne {mark : Char} (hmark : isNameRest mark = false) : c ≠ mark := by
      rintro rfl
      exact not_mem_of_isName hn hmark hc
    exact .asIs (hne (by decide)) (hne (by decide)) (hne (by decide)) rfl
  have hliteral := ConstantToken.Literal.plain hspelled
  rwa [← List.flatMap_def, List.flatMap_singleton', ← toList_key] at hliteral

theorem Member.isString_key : ConstantToken.IsString (key n) :=
  ⟨_, ConstantToken.string?_of_literal (literal_key hn)⟩

/-- The string by which a task is called stands for the task's name, wherever it is read. -/
theorem Model.constantValue_key (m : Model) (s : Scope) :
    m.constantValue s (Member.key n) = some n :=
  m.constantValue_of_literal s (Member.literal_key hn)

end Key

/-- The call that a wrapper makes: the lines above the wrapper, what leads from there to the first
argument of the call, and the task that the wrapper is made for. -/
structure WrapperCall where
  header : List String
  lead : String
  task : String

/-- A call behind the first statements of a method. -/
def WrapperMethod.callBehind (m : WrapperMethod) (statements : Nat) (call task : String) :
    WrapperCall :=
  ⟨m.header, String.join (m.signature ++ ["\x7b"] ++ m.body.take statements) ++ call, task⟩

def Member.call? : Member → Option WrapperCall
  | schedule task inputDefault =>
    some ((scheduleMethod task inputDefault).callBehind 0
      "return client.ScheduleNewOrchestrationInstanceAsync(" task)
  | subOrchestration task inputDefault output =>
    some ((subOrchestrationMethod task inputDefault output).callBehind 0
      ("return context.CallSubOrchestratorAsync<" ++ output ++ ">(") task)
  | activityCall task input output =>
    some ((callMethod task ⟨"input", input⟩ output).callBehind 0
      ("return ctx.CallActivityAsync<" ++ output ++ ">(") task)
  | activityTrigger task type inputDefault output =>
    some ((activityTriggerMethod task type inputDefault output).callBehind 1
      "TaskActivityContext context = new GeneratedActivityContext(" task)
  | functionCall task input result =>
    some ((callMethod task input result).callBehind 0
      ("return ctx.CallActivityAsync<" ++ result ++ ">(") task)
  | _ => none

/-- Whether an argument follows in a text behind what leads up to it, white space apart. -/
def Leads (text lead argument : String) : Prop :=
  ∃ front behind, text = front ++ argument ++ "," ++ behind ∧ joined front = joined lead

theorem Leads.append {text lead argument : String} (h : Leads text lead argument)
    {before before' : String} (hbefore : joined before = joined before') (after : String) :
    Leads (before ++ text ++ after) (before' ++ lead) argument := by
  obtain ⟨front, behind, rfl, hfront⟩ := h
  refine ⟨before ++ front, behind ++ after, by simp only [String.append_assoc], ?_⟩
  rw [joined_append, joined_append, hbefore, hfront]

namespace WrapperCall

/-- Whether a text is that of a wrapper with the call, which has a string as its first argument: the
lines above the wrapper stand by themselves, and the string follows what leads up to it. -/
def KeyedBy (c : WrapperCall) (text string : String) : Prop :=
  ∃ code, text = String.join (c.header.map ("        " ++ · ++ "\n")) ++ code ∧
    Leads code c.lead string

/-- That the text of a wrapper has its call, keyed by the task: the task's key is the first argument
of the call, and any string that is has the task's name as its value, wherever it is read. -/
structure Keyed (c : WrapperCall) (text : String) : Prop where
  isString : ConstantToken.IsString (Member.key c.task)
  keyedBy : c.KeyedBy text (Member.key c.task)
  value : ∀ string, ConstantToken.IsString string → c.KeyedBy text string →
    ∀ (m : Model) (s : Scope), m.constantValue s string = some c.task

theorem head?_of_isString {text : String} (h : ConstantToken.IsString text) :
    ∃ c cs, text.toList = c :: cs ∧ isSpace c = false := by
  obtain ⟨value, hvalue⟩ := h
  obtain ⟨c, cs, htext, hc⟩ := ConstantToken.exists_of_string? hvalue
  refine ⟨c, cs, htext, ?_⟩
  rcases hc with rfl | rfl | rfl <;> decide

/-- A string in front of a comma is read up to the comma. -/
theorem string?_append_comma {text : String} {value : List Char}
    (h : ConstantToken.string? text.toList = some (some (value, []))) (behind : List Char) :
    ConstantToken.string? (text.toList ++ ',' :: behind) = some (some (value, ',' :: behind)) := by
  have hend : ConstantToken.string? (text.toList ++ []) = some (some (value, [])) := by
    rwa [List.append_nil]
  exact ConstantToken.string?_append hend nofun

/-- The call of a wrapper has no more than one string as its first argument. -/
theorem KeyedBy.unique {c : WrapperCall} {text s t : String} (hs : c.KeyedBy text s)
    (ht : c.KeyedBy text t) (hsstring : ConstantToken.IsString s)
    (htstring : ConstantToken.IsString t) : s = t := by
  obtain ⟨code, rfl, front, behind, rfl, hfront⟩ := hs
  obtain ⟨code', htext, front', behind', rfl, hfront'⟩ := ht
  rw [String.append_right_inj] at htext
  obtain ⟨d, ds, hd, hspace⟩ := head?_of_isString hsstring
  obtain ⟨e, es, he, hspace'⟩ := head?_of_isString htstring
  have hchars := congrArg String.toList htext
  simp only [String.toList_append, List.append_assoc, hd, he, List.cons_append] at hchars
  have hjoined : withoutSpace front.toList = withoutSpace front'.toList :=
    String.ofList_injective (hfront.trans hfront'.symm)
  obtain ⟨-, hrest⟩ := append_cons_inj hspace hspace' hchars hjoined
  have hrest : s.toList ++ ',' :: behind.toList = t.toList ++ ',' :: behind'.toList := by
    rw [hd, he]
    exact hrest
  -- the same text is read from the same place on, so both strings end at the same comma
  obtain ⟨v, hv⟩ := hsstring
  obtain ⟨w, hw⟩ := htstring
  have hread := (string?_append_comma hv behind.toList).symm.trans
    (hrest ▸ string?_append_comma hw behind'.toList)
  simp only [Option.some.injEq, Prod.mk.injEq, List.cons.injEq, true_and] at hread
  rw [hread.2] at hrest
  exact String.toList_inj.1 (List.append_cancel_right hrest)

end WrapperCall

namespace Member

variable {n : String}

/-- A call on one line, which may be broken before the solid end of the call. -/
theorem leads_line (hn : isName n = true) {solid : String} (hsolid : Plan.Solid solid.toList)
    (t y : String) :
    Leads (Plan.indented ("    " ++ (t ++ (solid ++ (key n ++ ("," ++ y)))))) (t ++ solid)
      (key n) := by
  obtain ⟨t', ht, hlaid⟩ := Plan.exists_indented ("    " ++ t)
  have hw : Plan.Solid (solid ++ key n ++ ",").toList := by
    rw [String.toList_append, String.toList_append]
    exact (hsolid.append (solid_key hn)).append (by decide)
  refine ⟨t' ++ solid, .ofList (Plan.resume y.toList), ?_, ?_⟩
  · have h := hlaid _ y hw
    simp only [String.append_assoc] at h ⊢
    exact h
  · rw [joined_append, ht, joined_append, joined_append]
    rfl

/-- A call whose first argument has a line of its own. -/
theorem leads_lines (hn : isName n = true) {solid : String} (hsolid : Plan.Solid solid.toList)
    (t : String) :
    Leads (Plan.indented ("    " ++ (t ++ solid)) ++ Plan.indented ("        " ++ (key n ++ ",")))
      (t ++ solid) (key n) := by
  obtain ⟨t', ht, hcall⟩ := Plan.exists_indented ("    " ++ t)
  obtain ⟨gap, hgap, hkey⟩ := Plan.exists_indented "        "
  have hw : Plan.Solid (key n ++ ",").toList := by
    rw [String.toList_append]
    exact (solid_key hn).append (by decide)
  refine ⟨t' ++ solid ++ "\n" ++ gap, "\n", ?_, ?_⟩
  · have hcall := hcall _ "" hsolid
    have hkey := hkey _ "" hw
    simp only [String.append_assoc, String.append_empty] at hcall hkey ⊢
    rw [hcall, hkey]
    simp only [String.append_assoc]
    rfl
  · have hmargin : joined "    " = "" := rfl
    have hbreak : joined "\n" = "" := rfl
    have hindent : joined "        " = "" := rfl
    rw [joined_append, joined_append, joined_append, ht, hgap, joined_append, joined_append,
      hmargin, hbreak, hindent, String.append_empty, String.append_empty, String.empty_append]

theorem joined_join_map_indent (lines : List String) :
    joined (String.join (lines.map ("    " ++ ·))) = joined (String.join lines) := by
  have hindent : joined "    " = "" := rfl
  induction lines with
  | nil => rfl
  | cons line lines ih =>
    rw [List.map_cons, String.join_cons, String.join_cons, joined_append, joined_append,
      joined_append, hindent, String.empty_append, ih]

/-- What the lines of a method's body hold is in the text of the method, behind its header, its
signature and the statements in front of these lines. -/
theorem keyedBy_method {method : WrapperMethod} (hheader : ∀ l ∈ method.header, Plan.Solid l.toList)
    {before ls after : List String} (hbody : method.body = before ++ ls ++ after)
    {call argument : String}
    (h : Leads (String.join ((ls.map ("    " ++ ·)).map Plan.indented)) call argument) :
    (method.callBehind before.length call n).KeyedBy
      (String.join (method.lines.map Plan.indented)) argument := by
  have htext : String.join (method.lines.map Plan.indented)
      = String.join (method.header.map ("        " ++ · ++ "\n"))
        ++ (String.join
            ((method.signature ++ ["\x7b"] ++ before.map ("    " ++ ·)).map Plan.indented)
          ++ String.join ((ls.map ("    " ++ ·)).map Plan.indented)
          ++ String.join ((after.map ("    " ++ ·) ++ ["\x7d"]).map Plan.indented)) := by
    have hmargins : method.header.map Plan.indented
        = method.header.map ("        " ++ · ++ "\n") :=
      List.map_congr_left fun l hl => Plan.indented_of_solid (hheader l hl)
    rw [← hmargins, WrapperMethod.lines, hbody]
    simp only [List.map_append, String.join_append, String.append_assoc]
  have htake : method.body.take before.length = before := by
    rw [hbody, List.append_assoc, List.take_left]
  refine ⟨_, htext, h.append ?_ _⟩
  rw [Plan.joined_join_indented, htake, String.join_append, joined_append, joined_join_map_indent,
    ← joined_append, ← String.join_append]

/-- A method whose call is on one line of its body. -/
theorem keyedBy_of_line (hn : isName n = true) {method : WrapperMethod}
    (hheader : ∀ l ∈ method.header, Plan.Solid l.toList) (before after : List String)
    (t w y : String) (hw : Plan.Solid w.toList)
    (hbody : method.body = before ++ [t ++ w ++ key n ++ "," ++ y] ++ after) :
    (method.callBehind before.length (t ++ w) n).KeyedBy
      (String.join (method.lines.map Plan.indented)) (key n) := by
  refine keyedBy_method hheader hbody ?_
  have hline := leads_line hn hw t y
  simp only [List.map_cons, List.map_nil, String.join_cons, String.join_nil, String.append_empty,
    String.append_assoc] at hline ⊢
  exact hline

/-- A method whose call opens its body and has its first argument on a line of its own. -/
theorem keyedBy_of_lines (hn : isName n = true) {method : WrapperMethod}
    (hheader : ∀ l ∈ method.header, Plan.Solid l.toList) {after : List String}
    (t w : String) (hw : Plan.Solid w.toList)
    (hbody : method.body = [] ++ [t ++ w, "    " ++ key n ++ ","] ++ after) :
    (method.callBehind 0 (t ++ w) n).KeyedBy
      (String.join (method.lines.map Plan.indented)) (key n) := by
  refine keyedBy_method hheader hbody ?_
  have hlines := leads_lines hn hw t
  have hindent : "    " ++ ("    " ++ (key n ++ ",")) = "        " ++ (key n ++ ",") := by
    rw [← String.append_assoc]
    rfl
  simp only [List.map_cons, List.map_nil, String.join_cons, String.join_nil, String.append_empty,
    String.append_assoc, hindent] at hlines ⊢
  exact hlines

theorem solid_inherits {method : String} (hmethod : Plan.Solid method.toList) :
    ∀ l ∈ inherits method, Plan.Solid l.toList := by
  rw [inherits, List.forall_mem_singleton, String.toList_append, String.toList_append]
  have hopen : Plan.Solid "/// <inheritdoc cref=\"".toList := by decide
  exact (hopen.append hmethod).append (by decide)

theorem solid_functionMarker (hn : isName n = true) :
    ∀ l ∈ functionMarker n, Plan.Solid l.toList := by
  rw [functionMarker, List.forall_mem_singleton, String.toList_append, String.toList_append]
  have hopen : Plan.Solid "[Function(nameof(".toList := by decide
  have hname : Plan.Solid n.toList := by
    obtain ⟨c, cs, hchars, -, -⟩ := isName_iff.1 hn
    exact ⟨hchars ▸ List.cons_ne_nil c cs, not_mem_of_isName hn (by decide),
      not_mem_of_isName hn (by decide)⟩
  exact (hopen.append hname).append (by decide)

theorem keyedBy_schedule (hn : isName n = true) (inputDefault : String) :
    ((scheduleMethod n inputDefault).callBehind 0
        ("return client.ScheduleNewOrchestrationInstanceAsync" ++ "(") n).KeyedBy
      (String.join ((scheduleMethod n inputDefault).lines.map Plan.indented)) (key n) :=
  have hmethod : Plan.Solid "DurableTaskClient.ScheduleNewOrchestrationInstanceAsync".toList := by
    decide
  keyedBy_of_lines hn (solid_inherits hmethod)
    "return client.ScheduleNewOrchestrationInstanceAsync" "(" (by decide) rfl

theorem keyedBy_subOrchestration (hn : isName n = true) (inputDefault output : String) :
    ((subOrchestrationMethod n inputDefault output).callBehind 0
        ("return context.CallSubOrchestratorAsync<" ++ output ++ ">(") n).KeyedBy
      (String.join ((subOrchestrationMethod n inputDefault output).lines.map Plan.indented))
      (key n) :=
  have hmethod : Plan.Solid "TaskOrchestrationContext.CallSubOrchestratorAsync".toList := by
    decide
  keyedBy_of_lines hn (solid_inherits hmethod)
    ("return context.CallSubOrchestratorAsync<" ++ output) ">(" (by decide) rfl

theorem keyedBy_activityTrigger (hn : isName n = true) (type inputDefault output : String) :
    ((activityTriggerMethod n type inputDefault output).callBehind 1
        ("TaskActivityContext context = new GeneratedActivityContext" ++ "(") n).KeyedBy
      (String.join ((activityTriggerMethod n type inputDefault output).lines.map Plan.indented))
      (key n) := by
  have hopen : "TaskActivityContext context = new GeneratedActivityContext("
      = "TaskActivityContext context = new GeneratedActivityContext" ++ "(" := rfl
  have hcomma : ", instanceId, input);" = "," ++ " instanceId, input);" := rfl
  have hbody : (activityTriggerMethod n type inputDefault output).body
      = ["ITaskActivity activity = ActivatorUtilities.GetServiceOrCreateInstance<" ++ type
          ++ ">(executionContext.InstanceServices);"]
        ++ ["TaskActivityContext context = new GeneratedActivityContext" ++ "(" ++ key n ++ ","
          ++ " instanceId, input);"]
        ++ ["object? result = await activity.RunAsync(context, input);",
          "return (" ++ output ++ ")result!;"] := by
    simp only [activityTriggerMethod, hopen, hcomma, String.append_assoc, List.cons_append,
      List.nil_append]
  have hkeyed := keyedBy_of_line hn (solid_functionMarker hn) _ _ _ "(" _
    (by decide) hbody
  rwa [List.length_singleton] at hkeyed

theorem keyedBy_callMethod (hn : isName n = true) (input : FunctionInput) (output : String) :
    ((callMethod n input output).callBehind 0
        ("return ctx.CallActivityAsync<" ++ output ++ ">(") n).KeyedBy
      (String.join ((callMethod n input output).lines.map Plan.indented)) (key n) := by
  have hcomma (x : String) : ", " ++ x = "," ++ (" " ++ x) := by
    rw [← String.append_assoc]
    rfl
  have hmethod : Plan.Solid "TaskOrchestrationContext.CallActivityAsync".toList := by
    decide
  have hbody : (callMethod n input output).body
      = [] ++ ["return ctx.CallActivityAsync<" ++ output ++ ">(" ++ key n ++ ","
          ++ (" " ++ input.name ++ ", options);")] ++ [] := by
    simp only [callMethod, String.append_assoc, hcomma, List.nil_append, List.append_nil]
  exact keyedBy_of_line hn (solid_inherits hmethod) [] [] _ ">(" _ (by decide)
    hbody

/-- The text of a wrapper has the wrapper's call, keyed by the task. -/
theorem keyedBy_memberText {x : Member} {c : WrapperCall} (hcall : x.call? = some c)
    (hn : isName c.task = true) : c.KeyedBy (Plan.memberText x) (key c.task) := by
  cases x with
  | schedule task inputDefault =>
    cases hcall
    exact keyedBy_schedule hn inputDefault
  | subOrchestration task inputDefault output =>
    cases hcall
    exact keyedBy_subOrchestration hn inputDefault output
  | activityCall task input output =>
    cases hcall
    exact keyedBy_callMethod hn _ _
  | activityTrigger task type inputDefault output =>
    cases hcall
    exact keyedBy_activityTrigger hn type inputDefault output
  | functionCall task input result =>
    cases hcall
    exact keyedBy_callMethod hn _ _
  | «instance» => cases hcall
  | orchestratorTrigger => cases hcall
  | adapter => cases hcall
  | registration => cases hcall

/-- The text of a wrapper has no other call like it, so the string by which the task is called there
stands for the task's name. -/
theorem keyed_memberText {x : Member} {c : WrapperCall} (hcall : x.call? = some c)
    (hn : isName c.task = true) : c.Keyed (Plan.memberText x) where
  isString := isString_key hn
  keyedBy := keyedBy_memberText hcall hn
  value string hstring hkeyed m s := by
    rw [hkeyed.unique (keyedBy_memberText hcall hn) hstring (isString_key hn)]
    exact Model.constantValue_key hn m s

end Member

namespace Plan

/-- What stands in the file in front of the members, line by line. -/
def openingLines (p : Plan) : List String :=
  ["// <auto-generated/>", "#nullable enable annotations", "#nullable disable warnings", ""]
    ++ p.usings.map ("using " ++ · ++ ";")
    ++ ["", "namespace " ++ p.space, "\x7b", "    public static class " ++ p.className, "    \x7b"]

def closingLines : List String := ["    \x7d", "\x7d"]

theorem intercalate_append_cons (sep s : String) : ∀ before after : List String,
    sep.intercalate (before ++ s :: after)
      = String.join (before.map (· ++ sep)) ++ s ++ String.join (after.map (sep ++ ·))
  | [], [] => by simp
  | [], t :: after => by
    have ih := intercalate_append_cons sep t [] after
    rw [List.nil_append, List.map_nil, String.join_nil, String.empty_append] at ih ⊢
    rw [String.intercalate_cons_cons, ih, List.map_cons, String.join_cons]
    simp only [String.append_assoc]
  | t :: before, after => by
    have ih := intercalate_append_cons sep s before after
    obtain ⟨u, rest, hrest⟩ := List.exists_cons_of_ne_nil
      (List.append_ne_nil_of_right_ne_nil before (List.cons_ne_nil s after))
    rw [List.cons_append, hrest, String.intercalate_cons_cons, ← hrest, ih, List.map_cons,
      String.join_cons]
    simp only [String.append_assoc]

/-- Each member has its own place in the text of the file: behind the lines that open the class and
the members before it, with an empty line between any two. -/
theorem text_eq {p : Plan} {before after : List Member} {x : Member}
    (hmembers : p.members = before ++ x :: after) :
    p.text = String.join (p.openingLines.map (· ++ "\n"))
      ++ String.join (before.map (memberText · ++ "\n")) ++ memberText x
      ++ String.join (after.map ("\n" ++ memberText ·))
      ++ String.join (closingLines.map (· ++ "\n")) := by
  have hpragmas :
      "// <auto-generated/>\n#nullable enable annotations\n#nullable disable warnings\n\n"
      = "// <auto-generated/>" ++ "\n" ++ ("#nullable enable annotations" ++ "\n")
        ++ ("#nullable disable warnings" ++ "\n") ++ "\n" := by
    simp
  have husing : ";\n" = ";" ++ "\n" := rfl
  have hspace : "\nnamespace " = "\n" ++ "namespace " := rfl
  have hclass : "\n\x7b\n    public static class "
      = "\n" ++ ("\x7b" ++ "\n") ++ "    public static class " := rfl
  have hbrace : "\n    \x7b\n" = "\n" ++ "    \x7b" ++ "\n" := rfl
  have hclosing : "    \x7d\n\x7d\n" = "    \x7d" ++ "\n" ++ "\x7d" ++ "\n" := rfl
  unfold text
  rw [hmembers, List.map_append, List.map_cons, intercalate_append_cons, hpragmas, husing,
    hspace, hclass, hbrace, hclosing]
  simp only [openingLines, closingLines, List.map_append, List.map_cons, List.map_nil,
    List.map_map, Function.comp_def, String.join_append, String.join_cons, String.join_nil,
    String.append_empty, String.empty_append, String.append_assoc]

end Plan

end TaskWrappers
