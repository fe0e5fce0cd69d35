import Jobtology.Analyses.Editorial
import Jobtology.Analyses.GapAnalyzer
import Jobtology.Analyses.GapMonotonicity
import Jobtology.Analyses.RecomputeFreshness
import Jobtology.Base.Binary64
import Jobtology.Base.Collections
import Jobtology.Base.Dictionary
import Jobtology.Base.Fallible
import Jobtology.Base.FiniteFloats
import Jobtology.Base.FixedWindow
import Jobtology.Base.Generator
import Jobtology.Base.Json
import Jobtology.Base.Numerals
import Jobtology.Base.Occurrences
import Jobtology.Base.Regex
import Jobtology.Base.SequenceMatcher
import Jobtology.Base.SortedRows
import Jobtology.Base.Text
import Jobtology.Base.Trees
import Jobtology.Chat.BoundedUnion
import Jobtology.Chat.Compact
import Jobtology.Chat.Crowding
import Jobtology.Chat.EvidenceGraph
import Jobtology.Chat.EvidenceKept
import Jobtology.Chat.FocusSearch
import Jobtology.Chat.Grounding
import Jobtology.Chat.MergeLaws
import Jobtology.Chat.StreamedAnswer
import Jobtology.Chat.WholeRecords
import Jobtology.Chat.Workspace
import Jobtology.Corpus.Snapshot
import Jobtology.Cp.Model
import Jobtology.Dashboard.NextActions
import Jobtology.Documents.CssColor
import Jobtology.Editing.AppliedEdits
import Jobtology.Editing.DocumentEditLaws
import Jobtology.Editing.DocumentEdits
import Jobtology.Editing.ParagraphEdits
import Jobtology.Editing.RunSpans
import Jobtology.Editing.TaggedRuns
import Jobtology.Graph.DepthFirst
import Jobtology.Graph.LayeredSearch
import Jobtology.Llm.Streaming
import Jobtology.Planning.Calendar
import Jobtology.Planning.Candidate
import Jobtology.Planning.CandidateClosure
import Jobtology.Planning.Candidates
import Jobtology.Planning.HintRoute
import Jobtology.Planning.Objective
import Jobtology.Planning.PlannedRoute
import Jobtology.Planning.Planner
import Jobtology.Planning.PlannerVerdicts
import Jobtology.Planning.Problem
import Jobtology.Planning.Results
import Jobtology.Planning.RouteLaws
import Jobtology.Planning.RouteModel
import Jobtology.Planning.RouteValidity
import Jobtology.Planning.ScheduleHint
import Jobtology.Planning.Shortcuts
import Jobtology.Planning.SlotAvailability
import Jobtology.ProductRoles.Builder
import Jobtology.ProductRoles.Models
import Jobtology.ProductRoles.Planning
import Jobtology.ProductRoles.QualificationDisplay
import Jobtology.ProductRoles.RenamedCatalog
import Jobtology.ProductRoles.Reordering
import Jobtology.Profiles.Normalizer
import Jobtology.Profiles.Specs
import Jobtology.Relational.Erasure
import Jobtology.Relational.Failure
import Jobtology.Relational.Runs
import Jobtology.Relational.Table
import Jobtology.Relational.Transaction
import Jobtology.Resume.AnchoredAnnotations
import Jobtology.Resume.AnchoredBlocks
import Jobtology.Resume.BlockExtraction
import Jobtology.Resume.DocumentIr
import Jobtology.Resume.Extraction
import Jobtology.Resume.GroundedSuggestions
import Jobtology.Resume.HiddenText
import Jobtology.Resume.InertStyles
import Jobtology.Resume.Preview
import Jobtology.Resume.PreviewSafety
import Jobtology.Resume.SafeCss
import Jobtology.Resume.SlotAnswers
import Jobtology.Resume.SlotLaws
import Jobtology.Resume.Slots
import Jobtology.Resume.SourceAnnotations
import Jobtology.Resume.Suggestions
import Jobtology.Resume.VisibleDocx
import Jobtology.Sources.CrosswalkFeed
import Jobtology.Sources.CrosswalkLaws
import Jobtology.Sources.CrosswalkRuns
import Jobtology.Store.AccountErasure
import Jobtology.Store.Accounts
import Jobtology.Store.Admissions
import Jobtology.Store.AnalysisSubmissions
import Jobtology.Store.ClaimedWork
import Jobtology.Store.CompletionOutcomes
import Jobtology.Store.DashboardActions
import Jobtology.Store.Erasure
import Jobtology.Store.ExactlyOnce
import Jobtology.Store.GoalErased
import Jobtology.Store.GoalErasure
import Jobtology.Store.Goals
import Jobtology.Store.Idempotency
import Jobtology.Store.IdempotencyInvariants
import Jobtology.Store.Insertion
import Jobtology.Store.InvitationAccounting
import Jobtology.Store.LatestAnalysis
import Jobtology.Store.Ownership
import Jobtology.Store.PlanRequests
import Jobtology.Store.ProfileChanges
import Jobtology.Store.ProfileFollowUps
import Jobtology.Store.ProfileRuns
import Jobtology.Store.RateLimits
import Jobtology.Store.RecomputeProtocol
import Jobtology.Store.RecomputeQueue
import Jobtology.Store.Reconciliation
import Jobtology.Store.RepeatedSubmissions
import Jobtology.Store.RevisionProgress
import Jobtology.Store.RevisionRounds
import Jobtology.Store.Revisions
import Jobtology.Store.RoadmapCreation
import Jobtology.Store.RoadmapSteps
import Jobtology.Store.Roadmaps
import Jobtology.Store.RouteProposals
import Jobtology.Store.Schema
import Jobtology.Store.ServedWork
import Jobtology.Store.Session
import Jobtology.Store.SessionLifetimes
import Jobtology.Store.Sessions
import Jobtology.Store.Settling
import Jobtology.Store.StepReversal
import Jobtology.Store.StoredCapabilities
import Jobtology.Store.StoredRoutes
import Jobtology.Store.VerifiedCompletions
import Jobtology.Store.WeeklyPlans
import Jobtology.Store.WorkLaws
import Jobtology.Store.Worker
import Jobtology.Time.Civil
import Jobtology.Time.Zone
import Jobtology.Weekly.Models
import Jobtology.Weekly.OffsetOrder
import Jobtology.Weekly.Pack
import Jobtology.Weekly.PackConserving
import Jobtology.Weekly.PackHours
import Jobtology.Weekly.PackProgress
import Jobtology.Weekly.PackQueues
import Jobtology.Weekly.PackSchedule
import Jobtology.Weekly.Plan
import Jobtology.Weekly.PlanConsistency
import Jobtology.Weekly.PlanSchedule
import Jobtology.Workers.AnalysisInputs
import Jobtology.Workers.Batch
import Jobtology.Workers.BatchLaws
import Jobtology.Workers.CarryForward
import Jobtology.Workers.Context
import Jobtology.Workers.FinishedWork
import Jobtology.Workers.Recompute
import Jobtology.Workers.RecomputeLaws
