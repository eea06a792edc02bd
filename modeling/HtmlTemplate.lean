import HtmlTemplate.Engine
import HtmlTemplate.Inspect.Engine
import HtmlTemplate.Inspect.Value
import HtmlTemplate.Text.Escape
import HtmlTemplate.Trace
import HtmlTemplate.Proofs.Polling
import HtmlTemplate.Proofs.Task.Size
import HtmlTemplate.Proofs.Task.Quiet
import HtmlTemplate.Proofs.Task.Renumber
import HtmlTemplate.Proofs.Await
import HtmlTemplate.Proofs.Output.Slot
import HtmlTemplate.Proofs.Render.Step
import HtmlTemplate.Proofs.Render.Order
import HtmlTemplate.Proofs.Render.Stream
import HtmlTemplate.Proofs.Render.Agreement
import HtmlTemplate.Proofs.Markup.Spelling
import HtmlTemplate.Proofs.Markup.Trail
import HtmlTemplate.Proofs.Markup.Follow
import HtmlTemplate.Proofs.Template.Layout
import HtmlTemplate.Proofs.Template.Joined
import HtmlTemplate.Proofs.Template.Readings
import HtmlTemplate.Proofs.Markup.Value
import HtmlTemplate.Proofs.Template.Alone
import HtmlTemplate.Proofs.Markup.Mapped
import HtmlTemplate.Proofs.Template.Canonical
import HtmlTemplate.Proofs.Template.Scan
import HtmlTemplate.Proofs.Template.Company
import HtmlTemplate.Proofs.Template.Quoting
import HtmlTemplate.Proofs.Output.Escaped
import HtmlTemplate.Proofs.Output.Once
import HtmlTemplate.Proofs.Markup.Named
import HtmlTemplate.Proofs.Output.StartTag
import HtmlTemplate.Proofs.Template.Page
import HtmlTemplate.Proofs.Template.StartTag
import HtmlTemplate.Proofs.Markup.Reading
import HtmlTemplate.Proofs.Markup.Flow
import HtmlTemplate.Proofs.Template.Tally
import HtmlTemplate.Proofs.Template.Ledger
import HtmlTemplate.Proofs.Template.Weighing
import HtmlTemplate.Proofs.Template.Absent
import HtmlTemplate.Proofs.Template.Written
import HtmlTemplate.Proofs.Template.Closing
import HtmlTemplate.Proofs.Template.Lossless
import HtmlTemplate.Proofs.Value.Overlooked
import HtmlTemplate.Proofs.Render.Overlooked
import HtmlTemplate.Proofs.Cache.Session
import HtmlTemplate.Proofs.Cache.Undisturbed
import HtmlTemplate.Proofs.Cache.Failed
import HtmlTemplate.Proofs.Markup.Exposed
import HtmlTemplate.Proofs.Template.Scripts
import HtmlTemplate.Proofs.Template.Receives
import HtmlTemplate.Proofs.Template.Pushes
import HtmlTemplate.Proofs.Markup.Open
import HtmlTemplate.Proofs.Template.Misled
import HtmlTemplate.Proofs.Template.Sight
import HtmlTemplate.Proofs.Markup.Names
import HtmlTemplate.Proofs.Template.Beside
import HtmlTemplate.Proofs.Template.Fits
import HtmlTemplate.Proofs.Template.Words
import HtmlTemplate.Proofs.Template.WellPlaced
import HtmlTemplate.Proofs.Template.Markers
import HtmlTemplate.Proofs.Template.Literal
import HtmlTemplate.Proofs.Template.Recognised
import HtmlTemplate.Proofs.Render.Ended
import HtmlTemplate.Proofs.Render.Timed
import HtmlTemplate.Proofs.Task.Reduces
import HtmlTemplate.Proofs.Task.Agree
import HtmlTemplate.Proofs.Value.Reached
import HtmlTemplate.Proofs.Task.Blamed
import HtmlTemplate.Proofs.Render.Blamed
import HtmlTemplate.Proofs.Render.Effects
import HtmlTemplate.Proofs.Render.Desk
import HtmlTemplate.Proofs.Render.Counted
import HtmlTemplate.Proofs.Render.Begun
import HtmlTemplate.Proofs.Value.Pieces
import HtmlTemplate.Proofs.Render.Inserted
import HtmlTemplate.Proofs.Template.Blanks
import HtmlTemplate.Proofs.Template.Nesting
import HtmlTemplate.Proofs.Template.Collapsed
import HtmlTemplate.Proofs.Text.Escape
import HtmlTemplate.Proofs.Template.Split
import HtmlTemplate.Proofs.Value.Handler
import HtmlTemplate.Proofs.Output.Style
