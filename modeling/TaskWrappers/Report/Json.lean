import TaskWrappers.Pass
import TaskWrappers.Text.Json

/-!
# Reports for programs

What a pass found, as a JSON document.
-/

namespace TaskWrappers

open Document

def Span.document (s : Span) : Document :=
  object [("file", text s.file), ("start_line", number s.start.line),
    ("start_col", number s.start.column), ("end_line", number s.stop.line),
    ("end_col", number s.stop.column)]

def TaskKind.document : TaskKind → Document
  | .orchestrator => text "orchestrator"
  | .activity => text "activity"

def Mode.document : Mode → Document
  | .hostIntegrated => text "host_integrated"
  | .standalone => text "standalone"

def NameSource.document : NameSource → Document
  | .declared => object [("source", text "declared")]
  | .attributed => object [("source", text "attribute")]
  | .fallback expression span =>
    object [("source", text "non_constant_fallback"), ("expression", text expression),
      ("span", span.document)]

def Task.document (t : Task) : Document :=
  object [("kind", t.kind.document), ("declared_type_name", text t.declaration),
    ("task_name", text t.name), ("name_source", t.source.document), ("input_type", text t.input),
    ("input_default_type", text t.inputDefault), ("output_type", text t.output),
    ("span", t.span.document)]

def FunctionInput.document (p : FunctionInput) : Document :=
  object [("name", text p.name), ("type_expr", text p.type)]

def FunctionTask.document (f : FunctionTask) : Document :=
  object [("name", text f.name), ("name_source", f.source.document),
    ("return_type", text f.result), ("parameter", f.input.document),
    ("declared_in", text f.declaration), ("span", f.span.document)]

def TaskSet.document (t : TaskSet) : Document :=
  object [("orchestrators", list (t.orchestrators.map (·.document))),
    ("activities", list (t.activities.map (·.document))),
    ("functions", list (t.functions.map (·.document)))]

def Warning.document : Warning → Document
  | .nonConstantName declaration expression fallback span =>
    object [("warning", text "non_constant_task_name"), ("declaration", text declaration),
      ("expression", text expression), ("fallback", text fallback), ("span", span.document)]
  | .duplicateName kind name kept skipped =>
    object [("warning", text "duplicate_task_name"), ("kind", kind.document), ("name", text name),
      ("kept", text kept), ("skipped", text skipped)]
  | .invalidName name declaration =>
    object [("warning", text "invalid_task_name"), ("name", text name),
      ("declaration", text declaration)]
  | .syntaxDamage span =>
    object [("warning", text "recovered_syntax_error"), ("span", span.document)]

def Project.document (p : Project) : Document :=
  object [("path", optional p.path), ("referenced_modules", texts p.modules),
    ("implicit_usings", truth p.implicitUsings)]

def Analysis.document (a : Analysis) : Document :=
  object [("project", a.project.document), ("files", number a.fileCount),
    ("tasks", a.tasks.document), ("mode", a.mode.document),
    ("warnings", list (a.warnings.map (·.document)))]

end TaskWrappers
