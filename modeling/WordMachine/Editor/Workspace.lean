import WordMachine.Editor.Features
import WordMachine.Editor.Store

/-!
# Workspaces

A workspace keeps the analysis of every open document.  It belongs to a worker,
which does one job at a time and none after it was stopped.
-/

namespace WordMachine.Editor

/-- The analyses that are kept. -/
abbrev Workspace := Store Analysis

/-- Analyze a document and keep the result. -/
def Workspace.update (ws : Workspace) (uri text : Text) :
    Analysis × Workspace :=
  let a := Analysis.ofText uri text
  (a, ws.set uri a)

/-- A piece of work on a workspace.  It may break off with a message; what it
did to the workspace before that stays. -/
abbrev Job (α : Type) := Workspace → Except Text α × Workspace

namespace Job

variable {α : Type}

def update (uri text : Text) : Job Analysis := fun ws =>
  let (a, ws) := ws.update uri text
  (.ok a, ws)

def get (uri : Text) : Job (Option Analysis) := fun ws =>
  (.ok (ws.get? uri), ws)

def remove (uri : Text) : Job Unit := fun ws =>
  (.ok (), ws.erase uri)

def breakOff (message : Text) : Job α := fun ws =>
  (.error message, ws)

/-- The job that does another one and changes its result. -/
def map {β : Type} (f : α → β) (job : Job α) : Job β := fun ws =>
  let (result, ws) := job ws
  (result.map f, ws)

end Job

/-- The owner of a workspace. -/
structure Worker where
  workspace : Workspace := {}
  stopped : Bool := false

namespace Worker

/-- The failure of work given to a worker that was stopped. -/
def stoppedFault : Fault :=
  .ofText (Text.ofString "server: worker stopped")

/-- Do a job, unless the worker was stopped. -/
def perform {α : Type} (w : Worker) (job : Job α) : Except Fault α × Worker :=
  if w.stopped then (.error stoppedFault, w)
  else
    let (result, ws) := job w.workspace
    (result.mapError .ofText, { w with workspace := ws })

def stop (w : Worker) : Worker :=
  { w with stopped := true }

end Worker

end WordMachine.Editor
