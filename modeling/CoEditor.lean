-- SUMMARY: The collaborative editor: buffers, messages, registries, and the server with its workers.
import CoEditor.Buffer.Visibility
import CoEditor.Client.Newcomers
import CoEditor.Client.Pieces
import CoEditor.Client.Survival
import CoEditor.Msg.Framing
import CoEditor.Registry.Entries
import CoEditor.Registry.Logins
import CoEditor.Registry.Shares
import CoEditor.Server.Connections
import CoEditor.Server.Forks
import CoEditor.Server.Log
import CoEditor.Server.Malformed
import CoEditor.Server.Routing
import CoEditor.Server.Undoing
import CoEditor.Session.Edits
import CoEditor.Session.Marking
import CoEditor.Session.Painting
import CoEditor.Session.Release
import CoEditor.Session.Scratch
import CoEditor.Session.Unset
