import SelfPlay.Command.Invocation
import SelfPlay.Main
import SelfPlay.Match.Game
import SelfPlay.TicTacToe.HouseRules
import SelfPlay.Proofs.Lookahead.Edges
import SelfPlay.Proofs.Lookahead.Group
import SelfPlay.Proofs.Lookahead.Ruling
import SelfPlay.Proofs.Lookahead.Turn
import SelfPlay.Proofs.Lookahead.Run
import SelfPlay.Proofs.Lookahead.Start
import SelfPlay.Proofs.Lookahead.Independence
import SelfPlay.Proofs.Lookahead.Choice
import SelfPlay.Proofs.Lookahead.Reach
import SelfPlay.Proofs.Lookahead.BestChild
import SelfPlay.Proofs.Lookahead.Adjudication
import SelfPlay.Proofs.Match.Marks
import SelfPlay.Proofs.Match.Determined
import SelfPlay.Proofs.Match.Statistic
import SelfPlay.Proofs.Match.Journal
import SelfPlay.Proofs.Match.Rounds
import SelfPlay.Proofs.Match.Reach
import SelfPlay.Proofs.Match.Protocol
import SelfPlay.Proofs.Match.Stops
import SelfPlay.Proofs.Match.Notation
import SelfPlay.Proofs.Training.Labels
import SelfPlay.Proofs.Match.Export
import SelfPlay.Proofs.Repetition
import SelfPlay.Proofs.Match.Resumption
import SelfPlay.Proofs.Lookahead.Resumption
import SelfPlay.Proofs.Match.TreeModes
import SelfPlay.Proofs.Match.Inheritance
import SelfPlay.Proofs.Match.Bookkeeping
import SelfPlay.Proofs.Match.Thresholds
import SelfPlay.Proofs.Lookahead.Computations
import SelfPlay.Proofs.Lookahead.Interruption
import SelfPlay.Proofs.Lookahead.Lockstep
import SelfPlay.Proofs.Lookahead.Plies
import SelfPlay.Proofs.Lookahead.Termination
import SelfPlay.Proofs.TicTacToe.LegalPlay
import SelfPlay.Proofs.Lookahead.Replay
import SelfPlay.Proofs.Text.Pieces
import SelfPlay.Proofs.Text.Lines
import SelfPlay.Proofs.Text.Json
import SelfPlay.Proofs.TicTacToe.Text
import SelfPlay.Proofs.TicTacToe.History
import SelfPlay.Proofs.TicTacToe.Diagram
import SelfPlay.Proofs.TicTacToe.Lines
import SelfPlay.Proofs.TicTacToe.Heuristic
import SelfPlay.Proofs.TicTacToe.Solver
import SelfPlay.Proofs.TicTacToe.PerfectPlay
import SelfPlay.Proofs.Match.Legality
import SelfPlay.Proofs.Match.Termination
import SelfPlay.Proofs.Openings.Lines
import SelfPlay.Proofs.Command.Session
import SelfPlay.Proofs.Command.Assignment
import SelfPlay.Proofs.Command.Log
import SelfPlay.Proofs.Openings.Description
import SelfPlay.Proofs.Openings.File
import SelfPlay.Proofs.Text.Numeral
import SelfPlay.Proofs.Numeric.Nearest
import SelfPlay.Proofs.Numeric.Shortest
import SelfPlay.Proofs.Numeric.DecimalText
import SelfPlay.Proofs.Options.Dictionary
import SelfPlay.Proofs.Options.Configuration
import SelfPlay.Proofs.Match.Retry
import SelfPlay.Proofs.Tree.Agreement
import SelfPlay.Proofs.FirstInFirstOut
import SelfPlay.Proofs.TicTacToe.Symmetry
import SelfPlay.Proofs.TicTacToe.Encoding
import SelfPlay.Proofs.Training.Decoding
import SelfPlay.Proofs.Lookahead.ImmediateWins
import SelfPlay.Proofs.Lookahead.Consultations
import SelfPlay.Proofs.Search.StopConditions
import SelfPlay.Proofs.Match.OutcomeOdds
import SelfPlay.Proofs.Numeric.Integers
import SelfPlay.Proofs.Training.Countdown
import SelfPlay.Proofs.Files.StoredBlocks
import SelfPlay.Proofs.Files.FileSystem
import SelfPlay.Proofs.Files.Folders
import SelfPlay.Proofs.Text.JsonReading
import SelfPlay.Proofs.Command.LogReading
