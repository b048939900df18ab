import WordMachine.Json.Shape

/-!
# How an editor introduces itself

The first call of an editor says who it is and what it can do.  None of this
changes an answer, but an introduction of the wrong shape is refused, so the
shape is spelt out in full.  The abilities are grouped by what they are about:
the workspace, single documents, windows, and everything else.
-/

namespace WordMachine.Editor.Introduction

open Json (Shape)

/-! ## Patterns that come back -/

/-- Abilities that are either there or not. -/
def switches (names : List String) : List (String × Shape) :=
  names.map fun name => (name, .flag)

/-- An ability that can be announced later. -/
def announced (more : List (String × Shape)) : Shape :=
  .record (("dynamicRegistration", .flag) :: more)

/-- The numbered kinds that are understood. -/
def numberedKinds : Shape :=
  .record [("valueSet", .list .signed)]

/-- Names of properties, formats or kinds. -/
def names : Shape :=
  .list .text

def properties : Shape :=
  .record [("properties", names)]

/-- A name and a version, of a program or of a dialect. -/
def versioned (name : String) : Shape :=
  .record [(name, .text), ("version", .text)]

/-! ## Workspace -/

/-- How edits of a workspace are understood. -/
def workspaceEdit : Shape :=
  .record (switches ["documentChanges", "normalizesLineEndings"] ++
    [("resourceOperations", names), ("failureHandling", .text),
      ("changeAnnotationSupport", .record (switches ["groupsOnLabel"]))])

/-- Which events of files are told. -/
def fileOperations : Shape :=
  announced (switches
    ["didCreate", "willCreate", "didRename", "willRename", "didDelete",
      "willDelete"])

/-- Abilities about the workspace. -/
def workspace : Shape :=
  .record (switches ["applyEdit", "workspaceFolders", "configuration"] ++
    [("workspaceEdit", workspaceEdit),
      ("didChangeConfiguration", announced []),
      ("didChangeWatchedFiles", announced []),
      ("symbol", announced [("symbolKind", numberedKinds),
        ("tagSupport", numberedKinds)]),
      ("executeCommand", announced []),
      ("semanticTokens", .record (switches ["refreshSupport"])),
      ("codeLens", .record (switches ["refreshSupport"])),
      ("fileOperations", fileOperations)])

/-! ## Documents -/

def completion : Shape :=
  announced
    [("completionItem",
        .record (switches ["snippetSupport", "commitCharactersSupport",
            "deprecatedSupport", "preselectSupport", "insertReplaceSupport"] ++
          [("documentationFormat", names), ("tagSupport", numberedKinds),
            ("resolveSupport", properties),
            ("insertTextModeSupport", numberedKinds)])),
      ("completionItemKind", numberedKinds),
      ("contextSupport", .flag)]

/-- How explanations of a call being written are understood. -/
def signatureHelp : Shape :=
  announced
    [("signatureInformation", .record
        [("documentationFormat", names),
          ("parameterInformation", .record (switches ["labelOffsetSupport"])),
          ("activeParameterSupport", .flag)]),
      ("contextSupport", .flag)]

/-- How links to places are understood. -/
def linking : Shape :=
  announced (switches ["linkSupport"])

def documentSymbol : Shape :=
  announced (switches ["hierarchicalDocumentSymbolSupport", "labelSupport"] ++
    [("symbolKind", numberedKinds), ("tagSupport", numberedKinds)])

def codeAction : Shape :=
  announced (switches
      ["isPreferredSupport", "disabledSupport", "dataSupport",
        "honorsChangeAnnotations"] ++
    [("codeActionLiteralSupport", .record
        [("codeActionKind", .record [("valueSet", names)])]),
      ("resolveSupport", properties)])

def publishDiagnostics : Shape :=
  .record (switches
      ["relatedInformation", "versionSupport", "codeDescriptionSupport",
        "dataSupport"] ++
    [("tagSupport", numberedKinds)])

/-- How the colouring of tokens is understood.  A request is supported as a
whole or with details. -/
def semanticTokens : Shape :=
  announced (switches ["overlappingTokenSupport", "multilineTokenSupport"] ++
    [("requests", .record
        [("range", .either .flag (.record [])),
          ("full", .either .flag (.record (switches ["delta"])))]),
      ("tokenTypes", names), ("tokenModifiers", names), ("formats", names)])

/-- Abilities about single documents. -/
def textDocument : Shape :=
  .record
    [("synchronization",
      announced (switches ["willSave", "willSaveWaitUntil", "didSave"])),
      ("completion", completion),
      ("hover", announced [("contentFormat", names)]),
      ("signatureHelp", signatureHelp), ("declaration", linking),
      ("definition", linking),
      ("typeDefinition", linking),
      ("implementation", linking),
      ("references", announced []),
      ("documentHighlight", announced []),
      ("documentSymbol", documentSymbol),
      ("codeAction", codeAction),
      ("codeLens", announced []),
      ("documentLink", announced (switches ["tooltipSupport"])),
      ("colorProvider", announced []),
      ("formatting", announced []),
      ("rangeFormatting", announced []),
      ("onTypeFormatting", announced []),
      ("rename", announced
        (switches ["prepareSupport", "honorsChangeAnnotations"] ++
          [("prepareSupportDefaultBehavior", .signed)])),
      ("publishDiagnostics", publishDiagnostics),
      ("foldingRange", announced [("rangeLimit", .unsigned),
        ("lineFoldingOnly", .flag)]),
      ("selectionRange", announced []),
      ("linkedEditingRange", announced []),
      ("callHierarchy", announced []),
      ("semanticTokens", semanticTokens),
      ("moniker", announced [])]

/-! ## The rest -/

def window : Shape :=
  .record
    [("workDoneProgress", .flag),
      ("showMessage", .record
        [("messageActionItem",
          .record (switches ["additionalPropertiesSupport"]))]),
      ("showDocument", .record (switches ["support"]))]

/-- Abilities about nothing in particular. -/
def general : Shape :=
  .record [("regularExpressions", versioned "engine"),
    ("markdown", versioned "parser")]

def shape : Shape :=
  .record
    [("processId", .signed),
      ("clientInfo", versioned "name"),
      ("locale", .text),
      ("rootPath", .text),
      ("rootUri", .text),
      ("initializationOptions", .value),
      ("capabilities", .record
        [("workspace", workspace), ("textDocument", textDocument),
          ("window", window), ("general", general), ("experimental", .value)]),
      ("trace", .text),
      ("workspaceFolders", .list (.record [("uri", .text), ("name", .text)])),
      ("workDoneToken", .either .signed .text)]

end WordMachine.Editor.Introduction
